/-
This file models the callbacks that `RB_DECLARE_CALLBACKS_MAX` declares: every
node has the maximum of a value over its subtree. The value of a node comes from
what else is in the structure, which the callbacks only read; it is a parameter
here, and the entry of a node is the maximum alone.
-/

import Xlinux.Rbtree.Unlink
import Xlinux.Lib.RedBlackRefresh

namespace Xlinux

open RedBlack Cells List UInt64

/-- Trees whose entries are maxima. -/
abbrev MaxTree := Tree UInt64 UInt64

abbrev MaxFrame := Frame UInt64 UInt64

variable {nodes : List UInt64} {next value : UInt64 → UInt64}

/-! ### The callbacks -/

/-- `if (child->RBAUGMENTED > max) max = child->RBAUGMENTED`, for a child that may be `NULL`. -/
def childMax (child max : UInt64) : RbM UInt64 UInt64 := do
  if child ≠ 0 then
    let augmented := (← deref child).entry
    return if augmented > max then augmented else max
  else return max

/-- `RBNAME_compute_max`. -/
def computeMax (value : UInt64 → UInt64) (node : UInt64) (exit : Bool) : RbM UInt64 Bool := do
  let rb ← deref node
  let max ← childMax rb.rbLeft (value node)
  let max ← childMax rb.rbRight max
  if exit && decide (rb.entry = max) then return true
  else
    modifyNode node fun rb => { rb with entry := max }
    return false

/-- The loop of `RBNAME_propagate`. -/
def maxPropagateLoop (value : UInt64 → UInt64) : Nat → UInt64 → UInt64 → RbM UInt64 Unit
  | 0, _, _ => throw .endless
  | turns + 1, rb, stop => do
    if rb = stop then pure ()
    else if ← computeMax value rb true then pure ()
    else
      let rb ← rbParent rb
      maxPropagateLoop value turns rb stop

/-- `RBNAME_propagate`. -/
def maxPropagate (value : UInt64 → UInt64) (rb stop : UInt64) : RbM UInt64 Unit :=
  maxPropagateLoop value maxTurns rb stop

/-- `RBNAME_copy`. -/
def maxCopy (old new : UInt64) : RbM UInt64 Unit := do
  let augmented := (← deref old).entry
  modifyNode new fun rb => { rb with entry := augmented }

/-- `RBNAME_rotate`. -/
def maxRotate (value : UInt64 → UInt64) (old new : UInt64) : RbM UInt64 Unit := do
  maxCopy old new
  let _ ← computeMax value old false

/-- `RB_DECLARE_CALLBACKS_MAX`. -/
def maxCallbacks (value : UInt64 → UInt64) : RbAugmentCallbacks UInt64 where
  propagate := maxPropagate value
  copy := maxCopy
  rotate := maxRotate value

/-! ### Maxima over subtrees -/

/-- The greatest value of some nodes. -/
def maxOver (value : UInt64 → UInt64) (nodes : List UInt64) : UInt64 :=
  (nodes.map value).foldr max 0

/-- A maximum is computed from those of the children. -/
def maxAugment (value : UInt64 → UInt64) : Augment UInt64 UInt64 where
  copy old _ := old
  compute left label _ right := max (max (value label) (left.getD 0)) (right.getD 0)

theorem maxOver_append (value : UInt64 → UInt64) (nodes others : List UInt64) :
    maxOver value (nodes ++ others) = max (maxOver value nodes) (maxOver value others) := by
  induction nodes with
  | nil => exact (zero_max_word _).symm
  | cons node nodes ih =>
    show max (value node) (maxOver value (nodes ++ others)) = _
    rw [ih]
    exact (max_assoc_word ..).symm

theorem le_maxOver {node : UInt64} (member : node ∈ nodes) : value node ≤ maxOver value nodes := by
  obtain ⟨_, after, rfl⟩ := append_of_mem member
  rw [maxOver_append, le_iff_toNat_le, toNat_max_word]
  refine le_trans ?_ (le_max_right ..)
  show _ ≤ (max (value node) (maxOver value after)).toNat
  rw [toNat_max_word]
  exact le_max_left ..

theorem maxOver_mono {others : List UInt64} (inside : ∀ node ∈ nodes, node ∈ others) :
    maxOver value nodes ≤ maxOver value others := by
  induction nodes with
  | nil => exact le_iff_toNat_le.mpr (Nat.zero_le _)
  | cons node nodes ih =>
    have rest := ih (forall_mem_cons.mp inside).2
    refine (toNat_max_word (value node) (maxOver value nodes)).trans_le (Nat.max_le.mpr ⟨?_, rest⟩)
    exact le_iff_toNat_le.mp (le_maxOver (inside node mem_cons_self))

/-- A maximum that is not zero is reached. -/
theorem exists_of_le_maxOver {bound : UInt64} (positive : 0 < bound)
    (below : bound ≤ maxOver value nodes) : ∃ node ∈ nodes, bound ≤ value node := by
  induction nodes with
  | nil => exact absurd (UInt64.lt_of_lt_of_le positive below) (UInt64.lt_irrefl _)
  | cons node nodes ih =>
    rw [le_iff_toNat_le] at below
    rcases le_max_iff.mp (below.trans_eq (toNat_max_word (value node) (maxOver value nodes)))
      with here | later
    · exact ⟨node, mem_cons_self, le_iff_toNat_le.mpr here⟩
    · obtain ⟨other, member, large⟩ := ih (le_iff_toNat_le.mpr later)
      exact ⟨other, mem_cons_of_mem _ member, large⟩

theorem getD_totalOf (value : UInt64 → UInt64) (nodes : List UInt64) :
    (totalOf (maxOver value) nodes).getD 0 = maxOver value nodes := by
  cases nodes <;> rfl

/-- Maxima are totals. -/
theorem totals_maxAugment (value : UInt64 → UInt64) :
    (maxAugment value).Totals (fun _ => False) (maxOver value) where
  copy _ _ := rfl
  compute left label entry right _ := by
    show max (max (value label) _) _ = _
    rw [getD_totalOf, getD_totalOf, maxOver_append, max_comm_word (value label), max_assoc_word]
    rfl

/-- A node that is not counted. -/
theorem totals_maxAugment_except (value : UInt64 → UInt64) (node : UInt64) :
    (maxAugment value).Totals (fun label => label = node)
      fun nodes => maxOver value (nodes.filter (· ≠ node)) where
  copy _ _ := rfl
  compute left label entry right counts := by
    have getD : ∀ nodes : List UInt64, (totalOf (fun nodes => maxOver value
        (nodes.filter (· ≠ node))) nodes).getD 0 = maxOver value (nodes.filter (· ≠ node)) := by
      intro nodes
      cases nodes <;> rfl
    show max (max (value label) _) _ = _
    rw [getD, getD, filter_append, filter_cons_of_pos (by simpa using counts),
      maxOver_append, max_comm_word (value label), max_assoc_word]
    rfl

/-- A node with the value zero does not count. -/
theorem maxOver_filter_ne {node : UInt64} (zero : value node = 0) (nodes : List UInt64) :
    maxOver value (nodes.filter (· ≠ node)) = maxOver value nodes := by
  induction nodes with
  | nil => rfl
  | cons one nodes ih =>
    by_cases same : one = node
    · rw [filter_cons_of_neg (by simpa using same), ih]
      show _ = max (value one) (maxOver value nodes)
      rw [same, zero, zero_max_word]
    · rw [filter_cons_of_pos (by simpa using same)]
      exact congrArg (max (value one)) ih

/-- Maxima do not depend on the values of other nodes. -/
theorem summed_congr {tree : MaxTree} (same : ∀ node ∈ tree.labels, next node = value node)
    (sum : Summed (maxOver value) tree) : Summed (maxOver next) tree := by
  induction tree with
  | leaf => trivial
  | node color left label entry right leftSum rightSum =>
    rw [labels_node] at same
    refine ⟨fun _ => ?_, leftSum (fun node member => same node (by simp [member])) sum.2.1,
      rightSum (fun node member => same node (by simp [member])) sum.2.2⟩
    rw [maxOver, map_congr_left same]
    exact sum.1 not_false

theorem settled_congr {frames : List MaxFrame} {below : Option UInt64}
    (same : ∀ frame ∈ frames, next frame.label = value frame.label ∧
      ∀ node ∈ frame.sibling.labels, next node = value node)
    (settled : Settled (maxAugment value) (maxOver value) below frames) :
    Settled (maxAugment next) (maxOver next) below frames := by
  induction frames generalizing below with
  | nil => trivial
  | cons frame rest ih =>
    obtain ⟨⟨label, sibling⟩, above⟩ := forall_mem_cons.mp same
    obtain ⟨computed, sum, settled⟩ := settled
    refine ⟨?_, summed_congr sibling sum, ih above settled⟩
    rw [← computed]
    cases frame.side <;> simp only [Augment.computeWith, maxAugment, label]

section

variable {frames : List MaxFrame} {color : Color} {left right : MaxTree} {label entry : UInt64}
  (nodup : (fill frames (.node color left label entry right)).labels.Nodup)
  (sum : Summed (maxOver value) (fill frames (.node color left label entry right)))

include nodup sum

/-- The value of a node has changed; its maximum and those above it are computed again. -/
theorem summed_refresh_congr
    (same : ∀ node ∈ (fill frames (.node color left label entry right)).labels, node ≠ label →
      next node = value node) :
    Summed (maxOver next) (refresh (maxAugment next) frames color left label entry right) := by
  obtain ⟨⟨_, leftSum, rightSum⟩, settled⟩ := (summed_fill_iff (totals_maxAugment value)).mp sum
  obtain ⟨around, notLeft, notRight⟩ := not_mem_around nodup
  rw [labels_fill] at same
  refine summed_refresh (totals_maxAugment next)
    (summed_congr (fun node member => same node (by simp [member]) (notLeft node member)) leftSum)
    (summed_congr (fun node member => same node (by simp [member]) (notRight node member)) rightSum)
    (settled_congr (fun frame inside => ?_) settled)
  have outside : ∀ node, node = frame.label ∨ node ∈ frame.sibling.labels → node ≠ label →
      next node = value node := by
    intro node member different
    have place := mem_labels_of_frame inside member
    refine same node ?_ different
    rw [mem_append, mem_append]
    exact place.imp_right .inr
  exact ⟨outside _ (.inl rfl) (around frame inside).1,
    fun node member => outside node (.inr member) ((around frame inside).2 node member)⟩

end

/-- A node with the maximum zero counts as none. -/
theorem settled_zero {total : List UInt64 → UInt64} {frames : List MaxFrame}
    (settled : Settled (maxAugment value) total none frames) :
    Settled (maxAugment value) total (some 0) frames := by
  cases frames with
  | nil => trivial
  | cons frame rest =>
    obtain ⟨computed, above⟩ := settled
    refine ⟨?_, above⟩
    rw [← computed]
    cases frame.side <;> rfl

/-! ### What the callbacks do -/

section Callbacks

variable {tree : RbTree UInt64} {rest : NodeCells UInt64} {root : UInt64}
variable {node : UInt64}

theorem ite_gt_word (a b : UInt64) : (if b > a then b else a) = max a b := by
  refine UInt64.toNat_inj.mp ?_
  rw [toNat_max_word]
  split
  case isTrue more => exact (max_eq_right (lt_iff_toNat_lt.mp more).le).symm
  case isFalse less =>
    exact (max_eq_left (Nat.le_of_not_lt fun more => less (lt_iff_toNat_lt.mpr more))).symm

/-- Some cells have a node that may be missing, and its entry. -/
def Shows (cells : NodeCells UInt64) (ptr : UInt64) (entry : Option UInt64) :
    Prop :=
  ptr = 0 ∧ entry = none ∨ ∃ record rest, cells = cell ptr record + rest ∧ entry = some record.entry

theorem shows_treeCells (parent : UInt64) (tree : MaxTree) :
    Shows (treeCells parent tree) (rootPtr tree) tree.rootEntry := by
  cases tree with
  | leaf => exact .inl ⟨rfl, rfl⟩
  | node => exact .inr ⟨_, _, rfl, rfl⟩

variable {cells others : NodeCells UInt64} {entry otherEntry : Option UInt64}

/-- The maximum over a child that may be missing. -/
theorem Holds.childMax {child : UInt64} (shows : Shows cells child entry)
    (holds : Holds tree (cells + rest) root) (so : UInt64) :
    Xlinux.childMax child so tree = .ok (max so (entry.getD 0), tree) := by
  rcases shows with ⟨rfl, rfl⟩ | ⟨record, _, rfl, rfl⟩
  · show Except.ok (so, tree) = _
    rw [Option.getD_none, max_comm_word, zero_max_word]
  · rw [add_assoc] at holds
    rw [childMax, if_pos holds.at_first.ne]
    show (deref child tree >>= _) = _
    rw [holds.at_first.deref]
    show Except.ok ((if record.entry > so then record.entry else so), tree) = _
    rw [ite_gt_word]
    rfl

variable (value) in
theorem Holds.computeMax_children {record : RbNode UInt64} (left : Shows cells record.rbLeft entry)
    (right : Shows others record.rbRight otherEntry) (exit : Bool) {next : UInt64}
    (nextEq : next = (maxAugment value).compute entry node record.entry otherEntry)
    (holds : Holds tree (cell node record + (cells + (others + rest))) root) :
    Returns (Xlinux.computeMax value node exit) tree (exit && decide (record.entry = next))
      fun after =>
        Holds after (cell node { record with entry := next } + (cells + (others + rest))) root := by
  have leftMax := Holds.childMax left holds.second (value node)
  have rightMax := Holds.childMax right holds.third (max (value node) (entry.getD 0))
  refine Returns.read holds.at_first.deref ?_
  refine Returns.read leftMax ?_
  refine Returns.read rightMax ?_
  have computed : max (max (value node) (entry.getD 0)) (otherEntry.getD 0) = next := nextEq.symm
  rw [computed]
  cases stop : exit && decide (record.entry = next) with
  | true =>
    have same : record.entry = next := of_decide_eq_true (Bool.and_eq_true_iff.mp stop).2
    rw [← same]
    exact Returns.pure holds
  | false =>
    refine ((acts_modifyNode node _ record).at_first holds).bind fun after holds => ?_
    exact Returns.pure holds

variable (value) in
/-- A maximum is computed again. -/
theorem Holds.computeMax {record : RbNode UInt64} {side : Side}
    {near far : MaxTree} (nearShows : Shows cells (record.child side) near.rootEntry)
    (farShows : Shows others (record.child side.other) far.rootEntry) (exit : Bool) {next : UInt64}
    (nextEq : next = (maxAugment value).computeAt side near node record.entry far)
    (holds : Holds tree (cell node record + (cells + (others + rest))) root) :
    Returns (computeMax value node exit) tree (exit && decide (record.entry = next)) fun after =>
      Holds after (cell node { record with entry := next } + (cells + (others + rest))) root := by
  cases side with
  | left => exact holds.computeMax_children value nearShows farShows exit nextEq
  | right =>
    have swapped := holds.third.second
    refine (swapped.computeMax_children value farShows nearShows exit nextEq).mono fun after
      holds => ?_
    exact holds.third.second

theorem acts_maxCopy (old new : UInt64) (upper lower : RbNode UInt64) :
    Acts (maxCopy old new) (cell old upper + cell new lower)
      (cell old upper + cell new { lower with entry := upper.entry }) := by
  intro tree rest root holds
  rw [add_assoc] at holds ⊢
  refine Returns.read holds.at_first.deref ?_
  exact (acts_modifyNode new _ lower).at_second holds

theorem rotates_maxRotate (value : UInt64 → UInt64) :
    Rotates (maxAugment value) (maxRotate value) := by
  intro tree rest root old new upper lower side near far nearParent farParent nearChild
    farChild holds
  have both := holds.of_eq (add_assoc ..).symm
  refine ((acts_maxCopy old new upper lower).at_first both).bind fun tree holds => ?_
  have turn := (holds.of_eq (add_assoc ..)).fourth.fourth.third
  have nearShows : Shows (treeCells nearParent near) (upper.child side) near.rootEntry :=
    nearChild ▸ shows_treeCells nearParent near
  have farShows : Shows (treeCells farParent far) (upper.child side.other) far.rootEntry :=
    farChild ▸ shows_treeCells farParent far
  refine (turn.computeMax value nearShows farShows false rfl).bind fun after holds =>
    Returns.pure ?_
  exact holds.fourth.second

variable (value) in
/-- The loop of `propagate` goes up as long as maxima change. -/
theorem Holds.maxPropagateLoop {above : UInt64} {frames : List MaxFrame} {focus : MaxTree}
    {turns : Nat} (free : above &&& 3 = 0) (apart : ∀ frame ∈ frames, frame.label ≠ above)
    (enough : frames.length < turns) (shows : Shows cells (rootPtr focus) focus.rootEntry)
    (holds : Holds tree (frameCells above frames (rootPtr focus) + (cells + rest)) root) :
    Returns (maxPropagateLoop value turns (parentOf above frames) above) tree () fun after =>
      Holds after (frameCells above (RedBlack.propagate (maxAugment value) frames focus)
        (rootPtr focus) + (cells + rest)) root := by
  induction frames generalizing turns focus cells rest tree with
  | nil =>
    cases turns with
    | zero => cases enough
    | succ turns =>
      rw [maxPropagateLoop, parentOf, if_pos rfl]
      exact Returns.pure holds
  | cons frame outer ih =>
    cases turns with
    | zero => cases enough
    | succ turns =>
      rw [maxPropagateLoop, parentOf, if_neg (apart frame mem_cons_self)]
      generalize recordEq : rbNodeOf frame.side (packed (parentOf above outer) frame.color)
        (rootPtr focus) (rootPtr frame.sibling) frame.entry = record
      have nearShows : Shows cells (record.child frame.side) focus.rootEntry := by
        rw [← recordEq, child_rbNodeOf]
        exact shows
      have farShows : Shows (treeCells frame.label frame.sibling) (record.child frame.side.other)
          frame.sibling.rootEntry := by
        rw [← recordEq, child_other_rbNodeOf]
        exact shows_treeCells frame.label frame.sibling
      have sameEntry : record.entry = frame.entry := by rw [← recordEq, entry_rbNodeOf]
      rw [frameCells, recordEq, add_assoc, add_assoc] at holds
      have turn := holds.fourth.second
      obtain ⟨next, nextEq⟩ :
          ∃ next, next = (maxAugment value).computeAt frame.side focus frame.label
        frame.entry frame.sibling := ⟨_, rfl⟩
      have computed := turn.computeMax value nearShows farShows true
        (nextEq.trans (congrArg ((maxAugment value).computeAt frame.side focus frame.label ·
          frame.sibling) sameEntry.symm))
      rw [sameEntry] at computed
      refine computed.bind fun tree holds => ?_
      rw [propagate, ← nextEq]
      by_cases same : next = frame.entry
      · rw [if_pos (by simp [same]), if_pos same]
        refine Returns.pure ?_
        rw [frameCells, recordEq]
        have unchanged : ({ record with entry := next } : RbNode UInt64) = record := by
          rw [same, ← sameEntry]
        rw [unchanged] at holds
        exact holds.of_eq (by abel)
      · rw [if_neg (by simpa using Ne.symm same), if_neg same]
        have place := holds.fourth
        have up : rbParent frame.label tree = .ok (parentOf above outer, tree) := by
          rw [holds.at_first.rbParent]
          rw [← recordEq, rbParentColor_rbNodeOf,
            rbParentOf_packed (place.free_parentOf_of_free free)]
        refine Returns.read up ?_
        have plugged : rootPtr (Frame.plug { frame with entry := next } focus) = frame.label :=
          rootPtr_join
        have nodeShows : Shows (cell frame.label { record with entry := next } +
            (cells + treeCells frame.label frame.sibling))
            (rootPtr (Frame.plug { frame with entry := next } focus))
            (Frame.plug { frame with entry := next } focus).rootEntry :=
          .inr ⟨{ record with entry := next }, _, by rw [plugged], Tree.rootEntry_join⟩
        have went := ih (forall_mem_cons.mp apart).2
          (Nat.lt_of_succ_lt_succ enough) nodeShows
          (by rw [plugged, add_assoc, add_assoc]; exact place)
        refine went.mono fun after holds => ?_
        have written : ({ record with entry := next } : RbNode UInt64) = rbNodeOf frame.side
            (packed (parentOf above outer) frame.color) (rootPtr focus) (rootPtr frame.sibling)
            next := by
          rw [← recordEq, with_entry_rbNodeOf]
        rw [written, plugged] at holds
        rw [frameCells, parentOf_propagate]
        exact holds.of_eq (by abel)

/-- `propagate` goes up as long as maxima change. -/
theorem propagates_maxPropagate (value : UInt64 → UInt64) :
    Propagates (maxAugment value) (maxPropagate value) := by
  intro tree rest root above frames focus parent free apart holds
  have ran := holds.maxPropagateLoop value free apart holds.length_lt (shows_treeCells parent focus)
  exact ran

/-- The callbacks keep maxima over subtrees. -/
theorem lawful_maxCallbacks (value : UInt64 → UInt64) :
    Lawful (maxAugment value) (maxCallbacks value) where
  propagate := propagates_maxPropagate value
  copy := acts_maxCopy
  rotate := rotates_maxRotate value

/-! ### Maxima brought up to date -/

variable {frames : List MaxFrame} {color : Color} {left right : MaxTree} {label entry : UInt64}

section

variable (holds : HoldsTree tree (fill frames (.node color left label entry right)) rest)

include holds

variable (value) in
/-- `propagate` from a node of the tree. -/
theorem Holds.maxPropagate :
    Returns (Xlinux.maxPropagate value label 0) tree () fun after =>
      HoldsTree after (refresh (maxAugment value) frames color left label entry right) rest := by
  have place :=
    (@holdsTree_fill _ _ _ (⟨.left, color, label, entry, right⟩ :: frames) left).mp holds
  refine ((lawful_maxCallbacks value).propagate_root rfl place).mono fun after holds => ?_
  rw [refresh, holdsTree_fill, HoldsAt, parentOf_propagate, topPtr_propagate]
  exact holds

/-- A write to the entry of a node of the tree. -/
theorem Holds.setEntry (next : UInt64) :
    Returns (modifyNode label fun rb => { rb with entry := next }) tree () fun after =>
      HoldsTree after (fill frames (.node color left label next right)) rest := by
  rw [holdsTree_fill, HoldsAt, treeCells, add_assoc] at holds
  refine ((acts_modifyNode label _ _).at_second holds).mono fun after holds => ?_
  rw [holdsTree_fill, HoldsAt, treeCells, add_assoc]
  exact holds

end

/-- A node is linked before its maximum is known. -/
theorem summed_maxInsert {place : List MaxFrame} {stale : UInt64}
    (apart : (fill frames .leaf).labels.Nodup) (fresh : node ∉ (fill frames .leaf).labels)
    (sum : Summed (maxOver value) (fill frames .leaf))
    (inserted : insertFix (maxAugment value) frames (.node .red .leaf node stale .leaf) =
      fill place (.node color left node entry right)) :
    Summed (maxOver value) (refresh (maxAugment value) place color left node 0 right) := by
  have agree : ∀ labels : List UInt64, (∀ label ∈ labels, ¬label = node) →
      maxOver value (labels.filter (· ≠ node)) = maxOver value labels := by
    intro labels absent
    rw [filter_eq_self.mpr fun label member => decide_eq_true (absent label member)]
  obtain ⟨nodup, repaired⟩ := totaled_insertFix_linked (totals_maxAugment_except value node) agree
    (fun before after => by
      rw [filter_append, filter_append, filter_cons_of_neg (by simp)])
    apart fresh sum inserted
  refine summed_refresh_of_linked (totals_maxAugment_except value node) agree
    (totals_maxAugment value) nodup repaired fun zero => funext fun labels => ?_
  have bound : value node ≤ 0 := zero ▸ le_maxOver (by simp)
  exact maxOver_filter_ne (UInt64.toNat_inj.mp (Nat.le_zero.mp (le_iff_toNat_le.mp bound))) labels

end Callbacks

end Xlinux
