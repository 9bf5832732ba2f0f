/-
This file is about the order of a red-black tree: `rb_first` and `rb_next` of
`rbtree/rbtree.c`, the trees of `include/rbtree.h` that keep their first node at
hand, and `__enqueue_entity` of `sched/fair.c`, which finds out on its way down
whether the node it adds is the first one. The walk comes to all nodes in order,
and the node at hand is the first one whatever is added and taken out.
-/

import Xlinux.Rbtree.Augmented
import Xlinux.Rbtree.Valid
import Xlinux.Lib.Run

namespace Xlinux

open RedBlack Cells List Nat

variable {α : Type}

/-! ### The walk -/

/-- The loop `while (n->rb_left) n = n->rb_left`. -/
def rbLeftmostLoop : Nat → UInt64 → RbM α UInt64
  | 0, _ => throw .endless
  | turns + 1, n => do
    let left ← rbChild .left n
    if left ≠ 0 then rbLeftmostLoop turns left else return n

/-- `rb_first`. -/
def rbFirst : RbM α UInt64 := do
  let n := (← get).rbNode
  if n = 0 then return 0
  rbLeftmostLoop maxTurns n

/-- The last loop of `rb_next`: up, as long as the node is the right child of its parent. -/
def rbNextLoop : Nat → UInt64 → RbM α UInt64
  | 0, _ => throw .endless
  | turns + 1, node => do
    let parent ← rbParent node
    if parent ≠ 0 then
      if node = (← rbChild .right parent) then rbNextLoop turns parent else return parent
    else return parent

/-- `rb_next`. -/
def rbNext (node : UInt64) : RbM α UInt64 := do
  -- RB_EMPTY_NODE
  if (← deref node).rbParentColor = node then return 0
  let right ← rbChild .right node
  if right ≠ 0 then rbLeftmostLoop maxTurns right else rbNextLoop maxTurns node

/-- The nodes from one on, by `rb_next`. -/
def rbNodesFrom : Nat → UInt64 → RbM α (List UInt64)
  | 0, _ => throw .endless
  | turns + 1, node => do
    if node = 0 then return []
    let next ← rbNext node
    return node :: (← rbNodesFrom turns next)

/-- The nodes that `for (node = rb_first(root); node; node = rb_next(node))` comes to. -/
def rbNodes : RbM α (List UInt64) := do
  let first ← rbFirst
  rbNodesFrom maxTurns first

/-! ### Trees with their first node at hand -/

/-- `struct rb_root_cached`. -/
structure RbRootCached (α : Type) where
  rbRoot : RbTree α
  rbLeftmost : UInt64

/-- Code that works on such a tree. -/
abbrev RbCachedM (α : Type) := StateT (RbRootCached α) Kernel

/-- Code that works on the tree itself. -/
def onRbRoot {β : Type} (code : RbM α β) : RbCachedM α β := fun root => do
  let (value, rbRoot) ← code root.rbRoot
  return (value, { root with rbRoot })

/-- `rb_insert_color_cached`. -/
def rbInsertColorCached (node : UInt64) (leftmost : Bool) : RbCachedM α Unit := do
  if leftmost then modify fun root => { root with rbLeftmost := node }
  onRbRoot (rbInsertColor node)

/-- `rb_erase_cached`. -/
def rbEraseCached (node : UInt64) : RbCachedM α Unit := do
  if (← get).rbLeftmost = node then
    let next ← onRbRoot (rbNext node)
    modify fun root => { root with rbLeftmost := next }
  onRbRoot (rbErase node)

/-- `entity_before`. -/
def entityBefore (vruntime : UInt64 → UInt64) (a b : UInt64) : Bool :=
  (vruntime a - vruntime b).toInt64 < 0

/-- The loop of `__enqueue_entity`: the place for an entity, and whether it is the first one. -/
def enqueueEntityLoop (vruntime : UInt64 → UInt64) (se : UInt64) :
    Nat → UInt64 → RbLink → Bool → RbM α (UInt64 × RbLink × Bool)
  | 0, _, _, _ => throw .endless
  | turns + 1, parent, link, leftmost => do
    let entry ← readRbLink link
    if entry ≠ 0 then
      if entityBefore vruntime se entry then
        enqueueEntityLoop vruntime se turns entry (.child entry .left) leftmost
      else enqueueEntityLoop vruntime se turns entry (.child entry .right) false
    else return (parent, link, leftmost)

/-- `__enqueue_entity`. Entities are known by the address of their `run_node`; `vruntime` has their
virtual runtimes at the time of the call. -/
def enqueueEntity (vruntime : UInt64 → UInt64) (se : UInt64) : RbCachedM α Unit := do
  let (parent, link, leftmost) ← onRbRoot (enqueueEntityLoop vruntime se maxTurns 0 .root true)
  onRbRoot (rbLinkNode se parent link)
  rbInsertColorCached se leftmost

/-- An entity is added or taken out. -/
inductive CfsCall
  | enqueue (vruntime : UInt64 → UInt64) (se : UInt64)
  | dequeue (se : UInt64)

/-- `__enqueue_entity` and `__dequeue_entity`. -/
def cfsStep (root : RbRootCached α) : CfsCall → Kernel (RbRootCached α)
  | .enqueue vruntime se => return (← enqueueEntity vruntime se root).2
  | .dequeue se => return (← rbEraseCached se root).2

/-- What is added is not in the tree, and what is taken out is. -/
def Enqueued : List UInt64 → List CfsCall → Prop
  | _, [] => True
  | entities, .enqueue _ se :: rest => Usable se ∧ se ∉ entities ∧ Enqueued (se :: entities) rest
  | entities, .dequeue se :: rest => se ∈ entities ∧ Enqueued (entities.filter (· ≠ se)) rest

section Walk

variable {memory : RbTree α} {tree : Tree UInt64 α} {frames : List (Frame UInt64 α)}
  {color : Color} {left right : Tree UInt64 α} {label : UInt64} {entry : α}
variable {turns : Nat} {before after : List UInt64}

theorem labels_ne_nil {tree : Tree UInt64 α} (nonempty : tree ≠ .leaf) : tree.labels ≠ [] := by
  cases tree with
  | leaf => exact absurd rfl nonempty
  | node color left label entry right =>
    rw [labels_node]
    exact append_ne_nil_of_right_ne_nil _ (cons_ne_nil label right.labels)

theorem headD_append_of_ne_nil {first : List UInt64} (nonempty : first ≠ []) (rest : List UInt64)
    (default : UInt64) : (first ++ rest).headD default = first.headD default := by
  cases first with
  | nil => exact absurd rfl nonempty
  | cons => rfl

theorem Represents.rbLeftmostLoop (represents : Represents memory (fill frames tree))
    (nonempty : tree ≠ .leaf) (enough : tree.labels.length ≤ turns) :
    Xlinux.rbLeftmostLoop turns (rootPtr tree) memory = .ok (tree.labels.headD 0, memory) := by
  induction tree generalizing frames turns with
  | leaf => exact absurd rfl nonempty
  | node color left label entry right inLeft =>
    cases turns with
    | zero => simp at enough
    | succ turns =>
      rw [rbLeftmostLoop, read_bind (represents.rbChild nonempty .left), labels_node]
      have below := represents.at_left
      show (if rootPtr left ≠ 0 then rbLeftmostLoop turns (rootPtr left) else _) memory = _
      rcases eq_or_ne left .leaf with rfl | bottom
      · rfl
      · rw [labels_node, length_append, length_cons] at enough
        rw [if_pos (below.ne_zero_of_ne_leaf bottom), inLeft below bottom (by omega),
          headD_append_of_ne_nil (labels_ne_nil bottom)]

/-- `rb_first`. -/
theorem Represents.rbFirst (represents : Represents memory tree) :
    Xlinux.rbFirst memory = .ok (tree.labels.headD 0, memory) := by
  have root : memory.rbNode = rootPtr tree := represents.root
  show (if memory.rbNode = 0 then _ else Xlinux.rbLeftmostLoop maxTurns memory.rbNode) memory = _
  rw [root]
  have place : Represents memory (fill [] tree) := represents
  rcases eq_or_ne tree .leaf with rfl | empty
  · rfl
  · rw [if_neg (place.ne_zero_of_ne_leaf empty)]
    exact place.rbLeftmostLoop empty (le_of_lt represents.length_labels_lt)

/-- The way up ends at the first node after the place. -/
theorem Represents.rbNextLoop (represents : Represents memory (fill frames tree))
    (nonempty : tree ≠ .leaf) (enough : frames.length < turns) :
    Xlinux.rbNextLoop turns (rootPtr tree) memory = .ok ((labelsAfter frames).headD 0, memory) := by
  induction frames generalizing tree turns with
  | nil =>
    obtain ⟨turns, rfl⟩ := exists_eq_succ_of_ne_zero (ne_of_gt enough)
    rw [rbNextLoop, read_bind (represents.rbParent nonempty)]
    rfl
  | cons frame outer ih =>
    obtain ⟨turns, rfl⟩ := exists_eq_succ_of_ne_zero (ne_of_gt (zero_lt_of_lt enough))
    have above : Represents memory (fill outer (frame.plug tree)) := represents
    have present := above.ne_zero_of_ne_leaf Tree.join_ne_leaf
    have read := above.rbChild Tree.join_ne_leaf .right
    have upward := ih above Tree.join_ne_leaf (lt_of_succ_lt_succ enough)
    rw [Frame.plug, rootPtr_join] at present read upward
    rw [rbNextLoop, read_bind (represents.rbParent nonempty), parentOf, if_pos present,
      read_bind read, labelsAfter_cons]
    cases side : frame.side with
    | right =>
      rw [Tree.child_join, if_pos rfl]
      exact upward
    | left =>
      have holds : Holds memory _ _ := represents
      rw [treeCells_fill, frameCells] at holds
      generalize rbNodeOf frame.side _ _ _ _ = record at holds
      have beside :
          Holds memory (treeCells frame.label frame.sibling + (treeCells frame.label tree +
        (cell frame.label record + frameCells 0 outer frame.label))) _ :=
        holds.of_eq (by rw [parentOf]; abel)
      have apart : rootPtr frame.sibling ≠ rootPtr tree := beside.rootPtr_ne_rootPtr nonempty
      rw [if_neg]
      · rfl
      · exact apart.symm

/-- A node of a tree is not a node that is in no tree. -/
theorem Represents.rbParentColor_ne
    (represents : Represents memory (fill frames (.node color left label entry right))) :
    packed (parentOf 0 frames) color ≠ label := by
  intro same
  have holds : Holds memory _ _ := represents
  rw [treeCells_fill] at holds
  have free := holds.at_second.free
  have parent : parentOf 0 frames = label := by
    rw [← rbParentOf_packed holds.free_parentOf, same]
    exact and_not_of_and_eq_zero free
  cases frames with
  | nil => exact represents.at_place.ne parent.symm
  | cons frame outer => exact holds.label_ne frame mem_cons_self parent

/-- `rb_next`. -/
theorem Represents.rbNext
    (represents : Represents memory (fill frames (.node color left label entry right))) :
    Xlinux.rbNext label memory = .ok ((right.labels ++ labelsAfter frames).headD 0, memory) := by
  have place := represents.at_place
  have below := represents.at_right
  rw [Xlinux.rbNext, read_bind place.deref, if_neg represents.rbParentColor_ne]
  rw [read_bind (place.rbChild .right)]
  show (if rootPtr right ≠ 0 then Xlinux.rbLeftmostLoop maxTurns (rootPtr right)
    else Xlinux.rbNextLoop maxTurns label) memory = _
  by_cases bottom : right = .leaf
  · have enough : frames.length < maxTurns := by
      have holds : Holds memory _ _ := represents
      rw [treeCells_fill] at holds
      exact holds.length_lt
    rw [bottom]
    exact represents.rbNextLoop nofun enough
  · have few := represents.length_labels_lt
    rw [labels_fill, labels_node] at few
    simp only [length_append, length_cons] at few
    rw [if_pos (below.ne_zero_of_ne_leaf bottom), below.rbLeftmostLoop bottom (by omega),
      headD_append_of_ne_nil (labels_ne_nil bottom)]

namespace Represents

variable (represents : Represents memory tree)

include represents

/-- A node is in one place, with what is before it and after it. -/
theorem exists_place (order : tree.labels = before ++ label :: after) :
    ∃ frames color left entry right, tree = fill frames (.node color left label entry right) ∧
      before = labelsBefore frames ++ left.labels ∧ after = right.labels ++ labelsAfter frames := by
  have apart := represents.nodup
  have member : label ∈ tree.labels := order ▸ mem_append_right before mem_cons_self
  obtain ⟨frames, color, left, entry, right, rfl⟩ := exists_fill_of_mem_labels member
  rw [order, nodup_middle, nodup_cons, mem_append, not_or] at apart
  obtain ⟨sameBefore, -, sameAfter⟩ :=
    (append_cons_inj_of_notMem apart.1.1 apart.1.2).mp (order.symm.trans labels_fill_node)
  exact ⟨frames, color, left, entry, right, rfl, sameBefore, sameAfter⟩

theorem rbNext_of_order (order : tree.labels = before ++ label :: after) :
    Xlinux.rbNext label memory = .ok (after.headD 0, memory) := by
  obtain ⟨_, _, _, _, _, rfl, -, rfl⟩ := represents.exists_place order
  exact represents.rbNext

/-- From a node on, the walk comes to that node and to those after it. -/
theorem rbNodesFrom (order : tree.labels = before ++ after) (enough : after.length < turns) :
    Xlinux.rbNodesFrom turns (after.headD 0) memory = .ok (after, memory) := by
  induction after generalizing before turns with
  | nil =>
    obtain ⟨turns, rfl⟩ := exists_eq_succ_of_ne_zero (ne_of_gt enough)
    rfl
  | cons node rest ih =>
    obtain ⟨turns, rfl⟩ := exists_eq_succ_of_ne_zero (ne_of_gt (zero_lt_of_lt enough))
    have present : node ≠ 0 := by
      obtain ⟨_, _, _, _, _, rfl, -⟩ := represents.exists_place order
      exact represents.at_place.ne
    have onward : tree.labels = (before ++ [node]) ++ rest := by rw [order, append_cons]
    have tail := ih onward (lt_of_succ_lt_succ enough)
    rw [headD_cons, rbNodesFrom, if_neg present,
      read_bind (represents.rbNext_of_order order), read_bind tail]
    rfl

/-- The walk comes to all nodes, in order. -/
theorem rbNodes : Xlinux.rbNodes memory = .ok (tree.labels, memory) := by
  rw [Xlinux.rbNodes, read_bind represents.rbFirst]
  exact represents.rbNodesFrom (nil_append _).symm represents.length_labels_lt

end Represents

end Walk

/-! ### The node at hand -/

section Cached

variable {β : Type} {root : RbRootCached α} {memory : RbTree α} {tree : Tree UInt64 α}
  {frames : List (Frame UInt64 α)} {vruntime : UInt64 → UInt64} {se node : UInt64}
variable {entities : List UInt64}

theorem onRbRoot_bind {code : RbM α β} {γ : Type} {after : β → RbCachedM α γ} {value : β}
    (ran : code root.rbRoot = .ok (value, memory)) :
    (onRbRoot code >>= after) root = after value { root with rbRoot := memory } := by
  show (onRbRoot code root >>= _) = _
  rw [onRbRoot, ran]
  rfl

theorem onRbRoot_ok {code : RbM α β} {value : β} (ran : code root.rbRoot = .ok (value, memory)) :
    onRbRoot code root = .ok (value, { root with rbRoot := memory }) := by
  rw [onRbRoot, ran]
  rfl

/-- The loop of `__enqueue_entity` goes down to a place where there is nothing, and finds out
whether there is something before it. -/
theorem Represents.enqueueEntityLoop (vruntime : UInt64 → UInt64) (se : UInt64) {turns : Nat}
    (represents : Represents memory (fill frames tree)) (enough : tree.labels.length < turns) :
    ∃ place, fill frames tree = fill place .leaf ∧
      Xlinux.enqueueEntityLoop vruntime se turns (parentOf 0 frames) (linkOf frames)
        (labelsBefore frames).isEmpty memory =
          .ok ((parentOf 0 place, linkOf place, (labelsBefore place).isEmpty), memory) := by
  induction tree generalizing frames turns with
  | leaf =>
    obtain ⟨turns, rfl⟩ := exists_eq_succ_of_ne_zero (ne_of_gt enough)
    refine ⟨frames, rfl, ?_⟩
    rw [enqueueEntityLoop, read_bind represents.readRbLink]
    rfl
  | node color left label entry right inLeft inRight =>
    obtain ⟨turns, rfl⟩ := exists_eq_succ_of_ne_zero (ne_of_gt (zero_lt_of_lt enough))
    rw [labels_node, length_append, length_cons] at enough
    rw [enqueueEntityLoop, read_bind represents.readRbLink, rootPtr,
      if_pos represents.at_place.ne]
    split_ifs with earlier
    · have below := represents.at_left
      have fewer : left.labels.length < turns := by omega
      obtain ⟨place, whole, ran⟩ := inLeft below fewer
      refine ⟨place, whole, ?_⟩
      rw [← ran, labelsBefore_cons, append_nil]
      rfl
    · have below := represents.at_right
      have fewer : right.labels.length < turns := by omega
      obtain ⟨place, whole, ran⟩ := inRight below fewer
      refine ⟨place, whole, ?_⟩
      have something : (labelsBefore frames ++ (left.labels ++ [label])).isEmpty = false := by simp
      rw [← ran, labelsBefore_cons, something]
      rfl

/-- Memory has a red-black tree of some entities, and its first node is at hand. -/
def FirstAtHand (entities : List UInt64) (root : RbRootCached α) : Prop :=
  ∃ tree : Tree UInt64 α, Represents root.rbRoot tree ∧ tree.Valid ∧
    (∀ se, se ∈ tree.labels ↔ se ∈ entities) ∧ root.rbLeftmost = tree.labels.headD 0

/-- An entity is added. -/
theorem Represents.enqueueEntity (vruntime : UInt64 → UInt64)
    (represents : Represents root.rbRoot tree) (valid : tree.Valid)
    (first : root.rbLeftmost = tree.labels.headD 0) (usable : Usable se)
    (fresh : se ∉ tree.labels) :
    ∃ after, Xlinux.enqueueEntity vruntime se root = .ok ((), after) ∧
      FirstAtHand (se :: tree.labels) after := by
  have start : Represents root.rbRoot (fill [] tree) := represents
  obtain ⟨place, whole, walked⟩ := start.enqueueEntityLoop vruntime se start.length_labels_lt
  change Xlinux.enqueueEntityLoop vruntime se maxTurns 0 .root true _ = _ at walked
  obtain rfl : tree = fill place .leaf := whole
  obtain ⟨_, ranLink, holdsLink⟩ := (represents.beside usable fresh).rbLinkNode
  obtain ⟨repaired, ranInsert, holdsInsert⟩ := holdsLink.rbInsertLinked rotates_dummy valid
  refine ⟨⟨repaired, if (labelsBefore place).isEmpty then se else root.rbLeftmost⟩, ?_,
    _, holdsInsert.of_eq (add_zero _), valid_insertFix_leaf valid, fun other => ?_, ?_⟩
  · rw [enqueueEntity, onRbRoot_bind walked]
    show (onRbRoot (rbLinkNode se _ _) >>= _) root = _
    rw [onRbRoot_bind ranLink]
    cases (labelsBefore place).isEmpty <;> exact onRbRoot_ok ranInsert
  · rw [labels_insertFix_leaf, labels_fill_leaf, mem_append, mem_cons, mem_cons, mem_append]
    exact or_left_comm
  · rw [labels_insertFix_leaf, first, labels_fill_leaf]
    cases labelsBefore place <;> rfl

/-- An entity is taken out. -/
theorem Represents.rbEraseCached (represents : Represents root.rbRoot tree) (valid : tree.Valid)
    (first : root.rbLeftmost = tree.labels.headD 0) (member : se ∈ tree.labels) :
    ∃ after, Xlinux.rbEraseCached se root = .ok ((), after) ∧
      FirstAtHand (tree.labels.filter (· ≠ se)) after := by
  obtain ⟨before, later, order⟩ := append_of_mem member
  obtain ⟨erased, next, ran, representsNext, validNext, inorder⟩ := represents.rbErase valid member
  have apart := represents.nodup
  have filtered : next.labels = tree.labels.filter (· ≠ se) := by
    rw [Tree.labels, inorder, Tree.labels, filter_map]
    rfl
  have labels : next.labels = before ++ later := by
    rw [order] at apart
    rw [filtered, order, filter_ne_label apart]
  rw [order, nodup_middle, nodup_cons, mem_append, not_or] at apart
  refine ⟨⟨erased, next.labels.headD 0⟩, ?_, next, representsNext, validNext,
    fun other => filtered ▸ Iff.rfl, rfl⟩
  show (if root.rbLeftmost = se then _ else _ : RbCachedM α Unit) root = _
  rw [labels]
  rw [order] at first
  cases before with
  | nil =>
    change root.rbLeftmost = se at first
    rw [if_pos first]
    rw [onRbRoot_bind (represents.rbNext_of_order order)]
    exact onRbRoot_ok ran
  | cons head before =>
    change root.rbLeftmost = head at first
    have other : root.rbLeftmost ≠ se := by
      rintro rfl
      exact apart.1.1 (first ▸ mem_cons_self)
    rw [if_neg other, cons_append, ← first]
    exact onRbRoot_ok ran

/-- One call. -/
theorem FirstAtHand.step {call : CfsCall} {rest : List CfsCall} (kept : FirstAtHand entities root)
    (allowed : Enqueued entities (call :: rest)) :
    ∃ after remaining, cfsStep root call = .ok after ∧ FirstAtHand remaining after ∧
      Enqueued remaining rest := by
  obtain ⟨_, represents, valid, same, first⟩ := kept
  cases call with
  | enqueue vruntime se =>
    obtain ⟨usable, fresh, onward⟩ := allowed
    obtain ⟨after, ran, next, representsNext, validNext, sameNext, firstNext⟩ :=
      represents.enqueueEntity vruntime valid first usable (mt (same se).mp fresh)
    refine ⟨after, _, ?_, ⟨next, representsNext, validNext, fun other => ?_, firstNext⟩, onward⟩
    · rw [cfsStep, ran]
      rfl
    · rw [sameNext, mem_cons, mem_cons, same]
  | dequeue se =>
    obtain ⟨member, onward⟩ := allowed
    obtain ⟨after, ran, next, representsNext, validNext, sameNext, firstNext⟩ :=
      represents.rbEraseCached valid first ((same se).mpr member)
    refine ⟨after, _, ?_, ⟨next, representsNext, validNext, fun other => ?_, firstNext⟩, onward⟩
    · rw [cfsStep, ran]
      rfl
    · rw [sameNext, mem_filter, mem_filter, same]

/-- Every run keeps the first node at hand. -/
theorem FirstAtHand.run {calls : List CfsCall}
    (kept : FirstAtHand entities root) (allowed : Enqueued entities calls) :
    ∃ final remaining, Run.run cfsStep root calls = .ok final ∧ FirstAtHand remaining final := by
  induction calls generalizing root entities with
  | nil => exact ⟨root, entities, rfl, kept⟩
  | cons call rest ih =>
    obtain ⟨next, _, ran, keptNext, onward⟩ := kept.step allowed
    obtain ⟨final, remaining, ranRest, keptFinal⟩ := ih keptNext onward
    exact ⟨final, remaining, Run.run_cons_ok.mpr ⟨next, ran, ranRest⟩, keptFinal⟩

end Cached

/-- The walk by `rb_first` and `rb_next` comes to every node of a red-black tree once and in order
and then to `NULL`, and after any calls the node at hand is the one that `rb_first` finds. -/
theorem rbNodes_rbLeftmost :
    (∀ (memory : RbTree α) (tree : Tree UInt64 α), Represents memory tree → tree.Valid →
      tree.labels.Nodup ∧ rbNodes memory = .ok (tree.labels, memory)) ∧
    ∀ (nodes : UInt64 → RbNode α) (calls : List CfsCall), Enqueued [] calls →
      ∃ final tree, Run.run cfsStep ⟨⟨nodes, 0⟩, 0⟩ calls = .ok final ∧
        Represents final.rbRoot tree ∧ tree.Valid ∧
        rbFirst final.rbRoot = .ok (final.rbLeftmost, final.rbRoot) := by
  refine ⟨fun memory tree represents _ => ⟨represents.nodup, represents.rbNodes⟩, ?_⟩
  intro nodes calls allowed
  have empty : FirstAtHand [] ⟨⟨nodes, 0⟩, 0⟩ :=
    ⟨.leaf, ⟨⟨Multiset.nodup_zero, nofun, nofun⟩, rfl⟩, ⟨rfl, trivial, 0, rfl⟩, fun _ =>
      Iff.rfl, rfl⟩
  obtain ⟨final, _, ran, tree, represents, valid, -, first⟩ := empty.run allowed
  exact ⟨final, tree, ran, represents, valid, first ▸ represents.rbFirst⟩

/-- Two entities are added, the second one as the first node, which is then taken out. -/
theorem rbNodes_rbLeftmost_two : ∃ final tree, Run.run cfsStep ⟨⟨fun _ => ⟨0, 0, 0, ()⟩, 0⟩, 0⟩
      [.enqueue (fun _ => 5) 16, .enqueue (fun se => if se = 8 then 1 else 5) 8, .dequeue 8] =
        .ok final ∧
    Represents final.rbRoot tree ∧ tree.Valid ∧
    rbFirst final.rbRoot = .ok (final.rbLeftmost, final.rbRoot) :=
  rbNodes_rbLeftmost.2 _ _ ⟨by decide, by decide, by decide, by decide, by decide, trivial⟩

end Xlinux
