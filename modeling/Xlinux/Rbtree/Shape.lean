/-
This file says when memory holds a red-black tree: every node has the addresses
of its children and, packed with its color, that of its parent. The cells of a
tree are those of its place and of the subtree there. Small rules say what a
step of the code does to the cells it works on, whatever else there is.
-/

import Xlinux.Rbtree.Nodes
import Xlinux.Word
import Xlinux.Lib.Cells

namespace Xlinux

open RedBlack Cells Multiset

variable {α β γ : Type}

/-! ### Packed words -/

/-- Where a node may be: the two lowest bits of its address are free for the color. -/
def Usable (ptr : UInt64) : Prop := ptr ≠ 0 ∧ ptr &&& 3 = 0

instance : DecidablePred Usable := fun ptr => inferInstanceAs (Decidable (ptr ≠ 0 ∧ ptr &&& 3 = 0))

/-- The word of a node with a parent and a color. -/
def packed (parent : UInt64) (color : Color) : UInt64 := parent ||| colorWord color

section Words

variable {parent : UInt64} {color : Color}

section

theorem packed_or_black : packed parent color ||| colorWord .black = packed parent .black := by
  rw [packed, UInt64.or_assoc]
  cases color <;> rfl

variable (free : parent &&& 3 = 0)

include free

theorem rbParentOf_packed : rbParentOf (packed parent color) = parent := by
  have gone : colorWord color &&& ~~~3 = 0 := by cases color <;> decide
  rw [rbParentOf, packed, or_and_distrib_word, gone, UInt64.or_zero, and_not_of_and_eq_zero free]

theorem and_one_of_free : parent &&& 1 = 0 := by
  rw [show (1 : UInt64) = 3 &&& 1 from rfl, ← UInt64.and_assoc, free]
  rfl

theorem packed_and_one : packed parent color &&& 1 = colorWord color := by
  rw [packed, or_and_distrib_word, and_one_of_free free]
  cases color <;> rfl

theorem rbIsBlackWord_packed :
    rbIsBlackWord (packed parent color) = decide (color = .black) := by
  rw [rbIsBlackWord, packed_and_one free]
  cases color <;> rfl

theorem packed_and_one_or (other : UInt64) :
    (packed parent color &&& 1) ||| other = packed other color := by
  rw [packed_and_one free, UInt64.or_comm, packed]

end

theorem packed_red : packed parent .red = parent :=
  UInt64.or_zero

end Words

/-! ### The cells of a tree -/

/-- The address of the root. -/
def rootPtr : Tree UInt64 α → UInt64
  | .leaf => 0
  | .node _ _ label _ _ => label

/-- A node with its children by side. -/
def rbNodeOf (side : Side) (word near far : UInt64) (entry : α) : RbNode α :=
  match side with
  | .left => ⟨word, far, near, entry⟩
  | .right => ⟨word, near, far, entry⟩

/-- Nodes at their addresses. -/
abbrev NodeCells (α : Type) := Multiset (UInt64 × RbNode α)

/-- The cells of a subtree whose root has a parent. -/
def treeCells (parent : UInt64) : Tree UInt64 α → NodeCells α
  | .leaf => 0
  | .node color left label entry right =>
    cell label ⟨packed parent color, rootPtr right, rootPtr left, entry⟩ +
      (treeCells label left + treeCells label right)

/-- The parent of a place, in a subtree whose root has a parent. -/
def parentOf (above : UInt64) : List (Frame UInt64 α) → UInt64
  | [] => above
  | frame :: _ => frame.label

/-- The cells around a place at which a node hangs. -/
def frameCells (above : UInt64) : List (Frame UInt64 α) → UInt64 → NodeCells α
  | [], _ => 0
  | frame :: rest, hole =>
    cell frame.label (rbNodeOf frame.side (packed (parentOf above rest) frame.color) hole
        (rootPtr frame.sibling) frame.entry) +
      (treeCells frame.label frame.sibling + frameCells above rest frame.label)

/-- The root of a tree in which a node hangs at a place. -/
def topPtr : List (Frame UInt64 α) → UInt64 → UInt64
  | [], hole => hole
  | frame :: rest, _ => topPtr rest frame.label

section Cells

variable {side : Side} {color : Color} {near far tree : Tree UInt64 α} {label parent : UInt64}
  {entry : α} {frames : List (Frame UInt64 α)}

@[simp]
theorem rootPtr_join : rootPtr (Tree.join side color near label entry far) = label := by
  cases side <;> rfl

@[simp]
theorem rootPtr_augment_join {augment : Augment UInt64 α} :
    rootPtr (augment.join side color near label entry far) = label :=
  rootPtr_join

@[simp]
theorem rootPtr_recolor : rootPtr (tree.recolor color) = rootPtr tree := by
  cases tree <;> rfl

theorem treeCells_join : treeCells parent (Tree.join side color near label entry far) =
    cell label (rbNodeOf side (packed parent color) (rootPtr near) (rootPtr far) entry) +
      (treeCells label near + treeCells label far) := by
  cases side with
  | left => rfl
  | right => rw [Tree.join, treeCells, add_comm (treeCells label far), rbNodeOf]

theorem treeCells_fill : treeCells parent (fill frames tree) =
    frameCells parent frames (rootPtr tree) + treeCells (parentOf parent frames) tree := by
  induction frames generalizing tree with
  | nil => rw [fill, frameCells, zero_add, parentOf]
  | cons frame rest ih =>
    rw [fill, ih, Frame.plug, rootPtr_join, treeCells_join, frameCells, parentOf]
    abel

theorem rootPtr_fill : rootPtr (fill frames tree) = topPtr frames (rootPtr tree) := by
  induction frames generalizing tree with
  | nil => rfl
  | cons frame rest ih =>
    rw [fill, ih, Frame.plug, rootPtr_join, topPtr]

theorem parentOf_append (above : UInt64) (inner outer : List (Frame UInt64 α)) :
    parentOf above (inner ++ outer) = parentOf (parentOf above outer) inner := by
  cases inner <;> rfl

theorem frameCells_append (above : UInt64) (inner outer : List (Frame UInt64 α)) (hole : UInt64) :
    frameCells above (inner ++ outer) hole =
      frameCells (parentOf above outer) inner hole + frameCells above outer
        (topPtr inner hole) := by
  induction inner generalizing hole with
  | nil => rw [List.nil_append, frameCells, zero_add, topPtr]
  | cons frame rest ih =>
    rw [List.cons_append, frameCells, frameCells, ih, parentOf_append]
    abel

theorem topPtr_append (inner outer : List (Frame UInt64 α)) (hole : UInt64) :
    topPtr (inner ++ outer) hole = topPtr outer (topPtr inner hole) := by
  induction inner generalizing hole with
  | nil => rfl
  | cons frame rest ih => exact ih _

theorem card_treeCells : (treeCells parent tree).card = tree.inorder.length := by
  induction tree generalizing parent with
  | leaf => rfl
  | node color left label entry right leftCard rightCard =>
    simp only [treeCells, cell, card_add, card_singleton, leftCard, rightCard,
      Tree.inorder, List.length_append, List.length_cons]
    omega

theorem length_le_card_frameCells (above hole : UInt64) :
    frames.length ≤ (frameCells above frames hole).card := by
  induction frames generalizing hole with
  | nil => exact Nat.zero_le _
  | cons frame rest ih =>
    have below := ih frame.label
    simp only [frameCells, cell, card_add, card_singleton, List.length_cons]
    omega

end Cells

/-! ### Steps of the code -/

/-- Memory has some cells, and the root is known. -/
structure Holds (tree : RbTree α) (cells : NodeCells α) (root : UInt64) : Prop where
  owns : Owns Usable tree.nodes cells
  root : tree.rbNode = root

/-- Memory has a whole tree and some other cells. -/
abbrev HoldsTree (memory : RbTree α) (tree : Tree UInt64 α) (rest : NodeCells α) : Prop :=
  Holds memory (treeCells 0 tree + rest) (rootPtr tree)

/-- Memory has the cells around a place, those of the subtree there and some others. -/
abbrev HoldsAt (memory : RbTree α) (frames : List (Frame UInt64 α)) (focus : Tree UInt64 α)
    (rest : NodeCells α) : Prop :=
  Holds memory (frameCells 0 frames (rootPtr focus) + (treeCells (parentOf 0 frames) focus + rest))
    (topPtr frames (rootPtr focus))

theorem holdsTree_fill {memory : RbTree α} {rest : NodeCells α} {frames : List (Frame UInt64 α)}
    {focus : Tree UInt64 α} :
    HoldsTree memory (fill frames focus) rest ↔ HoldsAt memory frames focus rest := by
  rw [HoldsTree, treeCells_fill, rootPtr_fill, add_assoc]

/-- Code returns a value and leaves a state with some property. -/
def Returns (code : RbM α β) (tree : RbTree α) (value : β) (post : RbTree α → Prop) : Prop :=
  ∃ after, code tree = .ok (value, after) ∧ post after

section Steps

variable {tree : RbTree α} {cells rest one two three four five six : NodeCells α}
  {root ptr : UInt64} {node next : RbNode α} {value : β} {result : γ}
  {post middle : RbTree α → Prop}
variable {changed : NodeCells α}

theorem Returns.bind {code : RbM α β} {after : β → RbM α γ} (ran : Returns code tree value middle)
    (continues : ∀ tree, middle tree → Returns (after value) tree result post) :
    Returns (code >>= after) tree result post := by
  obtain ⟨state, returned, holds⟩ := ran
  obtain ⟨final, finished, done⟩ := continues state holds
  refine ⟨final, ?_, done⟩
  show (code tree >>= fun pair => after pair.1 pair.2) = _
  rw [returned]
  exact finished

theorem Returns.pure (holds : post tree) : Returns (Pure.pure value) tree value post :=
  ⟨tree, rfl, holds⟩

theorem Returns.mono {code : RbM α β} (ran : Returns code tree value middle)
    (weaker : ∀ tree, middle tree → post tree) : Returns code tree value post := by
  obtain ⟨state, returned, holds⟩ := ran
  exact ⟨state, returned, weaker state holds⟩

theorem Holds.of_eq (holds : Holds tree cells root) (same : cells = rest) : Holds tree rest root :=
  same ▸ holds

theorem Holds.second (holds : Holds tree (one + (two + rest)) root) :
    Holds tree (two + (one + rest)) root :=
  holds.of_eq (add_left_comm ..)

theorem Holds.third (holds : Holds tree (one + (two + (three + rest))) root) :
    Holds tree (three + (one + (two + rest))) root :=
  holds.of_eq (by abel)

theorem Holds.fourth (holds : Holds tree (one + (two + (three + (four + rest)))) root) :
    Holds tree (four + (one + (two + (three + rest)))) root :=
  holds.of_eq (by abel)

theorem Holds.fifth (holds : Holds tree (one + (two + (three + (four + (five + rest))))) root) :
    Holds tree (five + (one + (two + (three + (four + rest))))) root :=
  holds.of_eq (by abel)

theorem Holds.sixth
    (holds : Holds tree (one + (two + (three + (four + (five + (six + rest)))))) root) :
    Holds tree (six + (one + (two + (three + (four + (five + rest)))))) root :=
  holds.of_eq (by abel)

/-- There are fewer nodes than addresses. -/
theorem Holds.card_lt (holds : Holds tree cells root) : cells.card < 2 ^ 64 := by
  have nodup : (cells.map fun one => one.1.toNat).Nodup := by
    have apart := holds.owns.nodup.map (fun _ _ same => UInt64.toNat_inj.mp same)
    rwa [map_map] at apart
  have inside : (⟨_, nodup⟩ : Finset Nat) ⊆ Finset.Ico 1 (2 ^ 64) := by
    intro number member
    obtain ⟨one, found, rfl⟩ := mem_map.mp member
    have nonzero : one.1.toNat ≠ 0 := fun zero =>
      (holds.owns.usable one found).1 (UInt64.toNat_inj.mp zero)
    exact mem_Ico.mpr ⟨Nat.one_le_iff_ne_zero.mpr nonzero, one.1.toNat_lt⟩
  have fewer := Finset.card_le_card inside
  rw [Finset.card_mk, card_map, Nat.card_Ico] at fewer
  omega

theorem Holds.length_lt {frames : List (Frame UInt64 α)} {above hole : UInt64}
    (holds : Holds tree (frameCells above frames hole + rest) root) : frames.length < 2 ^ 64 :=
  ((length_le_card_frameCells above hole).trans (card_le_card (Multiset.le_add_right ..))).trans_lt
    holds.card_lt

/-- Code that changes some cells, whatever else there is. -/
def Acts (code : RbM α Unit) (cells next : NodeCells α) : Prop :=
  ∀ tree rest root, Holds tree (cells + rest) root →
    Returns code tree () fun after => Holds after (next + rest) root

variable {code : RbM α Unit}

namespace Acts

variable (acts : Acts code cells changed)

include acts

theorem at_first (holds : Holds tree (cells + rest) root) :
    Returns code tree () fun after => Holds after (changed + rest) root :=
  acts tree rest root holds

theorem at_second (holds : Holds tree (one + (cells + rest)) root) :
    Returns code tree () fun after => Holds after (one + (changed + rest)) root :=
  (acts.at_first holds.second).mono fun _ held => held.second

theorem at_third (holds : Holds tree (one + (two + (cells + rest))) root) :
    Returns code tree () fun after => Holds after (one + (two + (changed + rest))) root :=
  (acts.at_first holds.third).mono fun _ held => held.third.third

theorem at_fourth (holds : Holds tree (one + (two + (three + (cells + rest)))) root) :
    Returns code tree () fun after =>
      Holds after (one + (two + (three + (changed + rest)))) root :=
  (acts.at_first holds.fourth).mono fun _ held => held.fourth.fourth.fourth

theorem at_fifth (holds : Holds tree (one + (two + (three + (four + (cells + rest))))) root) :
    Returns code tree () fun after =>
      Holds after (one + (two + (three + (four + (changed + rest))))) root :=
  (acts.at_first holds.fifth).mono fun _ held => held.fifth.fifth.fifth.fifth

end Acts

theorem acts_modifyNode (ptr : UInt64) (change : RbNode α → RbNode α) (node : RbNode α) :
    Acts (modifyNode ptr change) (cell ptr node) (cell ptr (change node)) := by
  intro tree rest root holds
  refine ⟨{ tree with nodes := Function.update tree.nodes ptr (change (tree.nodes ptr)) }, ?_, ?_⟩
  · rw [modifyNode, if_neg holds.owns.usable_addr.1]
  · rw [holds.owns.read]
    exact ⟨holds.owns.write (change node), holds.root⟩

/-- A node that is there. -/
structure At (tree : RbTree α) (ptr : UInt64) (node : RbNode α) : Prop where
  ne : ptr ≠ 0
  free : ptr &&& 3 = 0
  same : tree.nodes ptr = node

theorem Holds.at_first (holds : Holds tree (cell ptr node + rest) root) : At tree ptr node :=
  ⟨holds.owns.usable_addr.1, holds.owns.usable_addr.2, holds.owns.read⟩

theorem Holds.at_second (holds : Holds tree (one + (cell ptr node + rest)) root) :
    At tree ptr node :=
  holds.second.at_first

theorem Holds.at_third (holds : Holds tree (one + (two + (cell ptr node + rest))) root) :
    At tree ptr node :=
  holds.third.at_first

/-- Code that only reads. -/
theorem Returns.read {code : RbM α β} {after : β → RbM α γ} (ran : code tree = .ok (value, tree))
    (continues : Returns (after value) tree result post) :
    Returns (code >>= after) tree result post := by
  have only : Returns code tree value fun state => state = tree := ⟨tree, ran, rfl⟩
  exact only.bind fun _ same => same ▸ continues

namespace At

variable (found : At tree ptr node)

include found

theorem deref : Xlinux.deref ptr tree = .ok (node, tree) := by
  rw [Xlinux.deref, if_neg found.ne, found.same]

/-- Code that reads a field of a node. -/
theorem read (field : RbNode α → β) :
    (do return field (← Xlinux.deref ptr) : RbM α β) tree = .ok (field node, tree) := by
  show (Xlinux.deref ptr tree >>= _) = _
  rw [found.deref]
  rfl

theorem rbChild (side : Side) : Xlinux.rbChild side ptr tree = .ok (node.child side, tree) :=
  found.read _

theorem rbParent : Xlinux.rbParent ptr tree = .ok (rbParentOf node.rbParentColor, tree) :=
  found.read _

theorem rbRedParent : Xlinux.rbRedParent ptr tree = .ok (node.rbParentColor, tree) :=
  found.read _

theorem rbIsBlack : Xlinux.rbIsBlack ptr tree = .ok (rbIsBlackWord node.rbParentColor, tree) :=
  found.read _

theorem rbIsRed : Xlinux.rbIsRed ptr tree = .ok (!rbIsBlackWord node.rbParentColor, tree) :=
  found.read _

end At

end Steps

section Nodes

variable {side : Side} {word near far : UInt64} {entry : α}

@[simp]
theorem child_rbNodeOf : (rbNodeOf side word near far entry).child side = near := by
  cases side <;> rfl

@[simp]
theorem child_other_rbNodeOf : (rbNodeOf side word near far entry).child side.other = far := by
  cases side <;> rfl

@[simp]
theorem setChild_rbNodeOf {ptr : UInt64} :
    (rbNodeOf side word near far entry).setChild side ptr = rbNodeOf side word ptr far entry := by
  cases side <;> rfl

@[simp]
theorem setChild_other_rbNodeOf {ptr : UInt64} :
    (rbNodeOf side word near far entry).setChild side.other ptr =
      rbNodeOf side word near ptr entry := by
  cases side <;> rfl

@[simp]
theorem rbParentColor_rbNodeOf : (rbNodeOf side word near far entry).rbParentColor = word := by
  cases side <;> rfl

@[simp]
theorem entry_rbNodeOf : (rbNodeOf side word near far entry).entry = entry := by
  cases side <;> rfl

@[simp]
theorem with_rbParentColor_rbNodeOf {next : UInt64} :
    { rbNodeOf side word near far entry with rbParentColor := next } =
      rbNodeOf side next near far entry := by
  cases side <;> rfl

@[simp]
theorem with_entry_rbNodeOf {next : α} :
    { rbNodeOf side word near far entry with entry := next } =
      rbNodeOf side word near far next := by
  cases side <;> rfl

theorem rbNodeOf_other : rbNodeOf side.other word near far entry =
    rbNodeOf side word far near entry := by
  cases side <;> rfl

end Nodes

/-! ### Changing children and parents -/

section Links

variable {tree : RbTree α} {rest : NodeCells α} {root ptr : UInt64}
  {node : RbNode α} {frames : List (Frame UInt64 α)}
variable {subtree : Tree UInt64 α} {above hole : UInt64}

theorem acts_setRbChild (side : Side) (ptr child : UInt64) (node : RbNode α) :
    Acts (setRbChild side ptr child) (cell ptr node) (cell ptr (node.setChild side child)) :=
  acts_modifyNode ptr _ node

theorem acts_rbSetParentColor (ptr parent : UInt64) (color : Color) (node : RbNode α) :
    Acts (rbSetParentColor ptr parent color) (cell ptr node)
      (cell ptr { node with rbParentColor := packed parent color }) :=
  acts_modifyNode ptr _ node

theorem acts_rbSetParent (ptr parent : UInt64) (node : RbNode α) :
    Acts (rbSetParent ptr parent) (cell ptr node)
      (cell ptr { node with rbParentColor := (node.rbParentColor &&& 1) ||| parent }) :=
  acts_modifyNode ptr _ node

/-- The root of a subtree is not a node outside of it. -/
theorem Holds.rootPtr_ne {parent : UInt64}
    (holds : Holds tree (treeCells parent subtree + (cell ptr node + rest)) root) :
    rootPtr subtree ≠ ptr := by
  cases subtree with
  | leaf => exact fun same => holds.at_second.ne same.symm
  | node color left label entry right =>
    have whole := holds.owns
    rw [treeCells, add_assoc, add_left_comm (treeCells label left + treeCells label right)] at whole
    exact whole.ne

/-- Two subtrees have different roots, unless both are empty. -/
theorem Holds.rootPtr_ne_rootPtr {parent otherParent : UInt64} {other : Tree UInt64 α}
    (holds : Holds tree (treeCells parent subtree + (treeCells otherParent other + rest)) root)
    (nonempty : other ≠ .leaf) : rootPtr subtree ≠ rootPtr other := by
  cases other with
  | leaf => exact absurd rfl nonempty
  | node color left label entry right =>
    rw [treeCells, add_assoc] at holds
    exact holds.rootPtr_ne

/-- `rb_set_parent_color` of the root of a subtree. -/
theorem acts_rbSetParentColor_root (nonempty : subtree ≠ .leaf)
    (parent next : UInt64) (color : Color) :
    Acts (rbSetParentColor (rootPtr subtree) next color) (treeCells parent subtree)
      (treeCells next (subtree.recolor color)) := by
  intro tree rest root holds
  cases subtree with
  | leaf => exact absurd rfl nonempty
  | node old left label entry right =>
    rw [treeCells, add_assoc] at holds
    rw [Tree.recolor, treeCells, add_assoc]
    exact (acts_rbSetParentColor label next color _).at_first holds

theorem Holds.rootPtr_ne_zero {parent : UInt64}
    (holds : Holds tree (treeCells parent subtree + rest) root) (nonempty : subtree ≠ .leaf) :
    rootPtr subtree ≠ 0 := by
  cases subtree with
  | leaf => exact absurd rfl nonempty
  | node old left label entry right =>
    rw [treeCells, add_assoc] at holds
    exact holds.at_first.ne

/-- `if (rb) rb_set_parent_color(rb, p, RB_BLACK)` for the root of a subtree. -/
theorem acts_rbSetParentColorIf (parent next : UInt64) (subtree : Tree UInt64 α) :
    Acts (rbSetParentColorIf (rootPtr subtree) next .black) (treeCells parent subtree)
      (treeCells next (subtree.recolor .black)) := by
  intro tree rest root holds
  by_cases empty : subtree = .leaf
  · subst empty
    exact Returns.pure holds
  · rw [rbSetParentColorIf, if_pos (holds.rootPtr_ne_zero empty)]
    exact (acts_rbSetParentColor_root empty parent next .black).at_first holds

/-- `rb_set_parent` of the root of a subtree. -/
theorem acts_rbSetParent_root (nonempty : subtree ≠ .leaf)
    {parent : UInt64} (free : parent &&& 3 = 0) (next : UInt64) :
    Acts (rbSetParent (rootPtr subtree) next) (treeCells parent subtree)
      (treeCells next subtree) := by
  intro tree rest root holds
  cases subtree with
  | leaf => exact absurd rfl nonempty
  | node color left label entry right =>
    rw [treeCells, add_assoc] at holds
    have acts := acts_rbSetParent label next
      (⟨packed parent color, rootPtr right, rootPtr left, entry⟩ : RbNode α)
    rw [packed_and_one_or free next] at acts
    rw [treeCells, add_assoc]
    exact acts.at_first holds

/-- `if (rb) rb_set_parent(rb, p)` for the root of a subtree. -/
theorem acts_rbSetParentIf {parent : UInt64} (free : parent &&& 3 = 0) (next : UInt64)
    (subtree : Tree UInt64 α) :
    Acts (rbSetParentIf (rootPtr subtree) next) (treeCells parent subtree)
      (treeCells next subtree) := by
  intro tree rest root holds
  by_cases empty : subtree = .leaf
  · subst empty
    exact Returns.pure holds
  · rw [rbSetParentIf, if_pos (holds.rootPtr_ne_zero empty)]
    exact (acts_rbSetParent_root empty free next).at_first holds

/-- `rb_set_parent` of the node furthest up around a place. -/
theorem acts_rbSetParent_top (nonempty : frames ≠ []) (free : above &&& 3 = 0)
    (next hole : UInt64) :
    Acts (rbSetParent (topPtr frames hole) next) (frameCells above frames hole)
      (frameCells next frames hole) := by
  induction frames generalizing hole with
  | nil => exact absurd rfl nonempty
  | cons frame rest ih =>
    intro tree others root holds
    rw [frameCells, add_assoc] at holds ⊢
    cases rest with
    | nil =>
      have acts := acts_rbSetParent frame.label next (rbNodeOf frame.side
        (packed above frame.color) hole (rootPtr frame.sibling) frame.entry)
      rw [rbParentColor_rbNodeOf, packed_and_one_or free next] at acts
      simp only [with_rbParentColor_rbNodeOf] at acts
      exact acts.at_first holds
    | cons upper rest =>
      have acts := ih (List.cons_ne_nil _ _) frame.label
      rw [add_assoc] at holds
      refine (acts.at_third holds).mono fun after held => ?_
      exact held.of_eq (by rw [add_assoc]; rfl)

section

variable {parent : UInt64} (holds : Holds tree (treeCells parent subtree + rest) root)
  (free : parent &&& 3 = 0)

include holds free

/-- The color of the root of a subtree. -/
theorem Holds.rbIsBlackWord_root (nonempty : subtree ≠ .leaf) :
    ∃ node, At tree (rootPtr subtree) node ∧ rbIsBlackWord node.rbParentColor = !subtree.isRed := by
  cases subtree with
  | leaf => exact absurd rfl nonempty
  | node color left label entry right =>
    rw [treeCells, add_assoc] at holds
    refine ⟨_, holds.at_first, ?_⟩
    rw [rbIsBlackWord_packed free]
    cases color <;> rfl

/-- `rb && rb_is_red(rb)` for the root of a subtree. -/
theorem Holds.rbIsRed_root :
    (if rootPtr subtree ≠ 0 then rbIsRed (rootPtr subtree) else pure false : RbM α Bool) tree =
      .ok (subtree.isRed, tree) := by
  by_cases empty : subtree = .leaf
  · subst empty
    rfl
  · obtain ⟨_, found, black⟩ := holds.rbIsBlackWord_root free empty
    rw [if_pos found.ne, found.rbIsRed, black, Bool.not_not]

/-- `!rb || rb_is_black(rb)` for the root of a subtree. -/
theorem Holds.rbNullOrBlack_root :
    rbNullOrBlack (rootPtr subtree) tree = .ok (!subtree.isRed, tree) := by
  by_cases empty : subtree = .leaf
  · subst empty
    rfl
  · obtain ⟨_, found, black⟩ := holds.rbIsBlackWord_root free empty
    rw [rbNullOrBlack, if_neg found.ne, found.rbIsBlack, black]

end

/-- The address of a parent leaves room for the color. -/
theorem Holds.free_parentOf_of_free (free : above &&& 3 = 0)
    (holds : Holds tree (frameCells above frames hole + rest) root) :
    parentOf above frames &&& 3 = 0 := by
  cases frames with
  | nil => exact free
  | cons frame outer =>
    rw [frameCells, add_assoc] at holds
    exact holds.at_first.free

theorem Holds.free_parentOf
    (holds : Holds tree (frameCells 0 frames hole + rest) root) : parentOf 0 frames &&& 3 = 0 :=
  holds.free_parentOf_of_free UInt64.zero_and

theorem Holds.free_above {frame : Frame UInt64 α}
    (holds : Holds tree (frameCells 0 (frame :: frames) hole + rest) root) :
    parentOf 0 frames &&& 3 = 0 := by
  rw [frameCells, add_assoc, add_assoc] at holds
  exact holds.third.free_parentOf

/-- The nodes around a place of a whole tree are not `NULL`. -/
theorem Holds.label_ne_zero (holds : Holds tree (frameCells above frames hole + rest) root) :
    ∀ frame ∈ frames, frame.label ≠ 0 := by
  induction frames generalizing hole rest with
  | nil => nofun
  | cons frame outer ih =>
    rw [frameCells, add_assoc, add_assoc] at holds
    intro one member
    rcases List.mem_cons.mp member with rfl | inOuter
    · exact holds.at_first.ne
    · exact ih holds.third one inOuter

/-- A node beside a place is not one of those around it. -/
theorem Holds.label_ne
    (holds : Holds tree (frameCells above frames hole + (cell ptr node + rest)) root) :
    ∀ frame ∈ frames, frame.label ≠ ptr := by
  induction frames generalizing hole rest with
  | nil => nofun
  | cons frame outer ih =>
    rw [frameCells, add_assoc, add_assoc] at holds
    intro one member
    rcases List.mem_cons.mp member with rfl | inOuter
    · exact holds.fourth.owns.ne.symm
    · exact ih holds.fourth.fourth one inOuter

/-- `__rb_change_child` hangs another node at a place. -/
theorem Holds.rbChangeChild {old new : UInt64}
    (holds : Holds tree (frameCells 0 frames old + (cell old node + rest)) (topPtr frames old)) :
    Returns (rbChangeChild old new (parentOf 0 frames)) tree () fun after =>
      Holds after (frameCells 0 frames new + (cell old node + rest)) (topPtr frames new) := by
  cases frames with
  | nil =>
    refine ⟨{ tree with rbNode := new }, rfl, ?_⟩
    exact ⟨holds.owns, rfl⟩
  | cons frame above =>
    rw [frameCells, add_assoc, add_assoc] at holds
    have parent := holds.at_first
    have other : rootPtr frame.sibling ≠ old := holds.fourth.third.rootPtr_ne
    rw [rbChangeChild, parentOf, if_pos parent.ne]
    refine Returns.read (parent.rbChild .left) ?_
    rw [frameCells, add_assoc, add_assoc]
    cases side : frame.side with
    | left =>
      rw [side] at holds
      rw [child_rbNodeOf, if_pos rfl]
      exact (acts_setRbChild .left frame.label new _).at_first holds
    | right =>
      rw [side] at holds
      show Returns (if rootPtr frame.sibling = old then _ else _) tree () _
      rw [if_neg other]
      exact (acts_setRbChild .right frame.label new _).at_first holds

/-- `__rb_rotate_set_parents` hangs the new upper node where the old one was. -/
theorem Holds.rbRotateSetParents {old new : UInt64} {upper lower : RbNode α} {color : Color}
    (holds : Holds tree (frameCells 0 frames old + (cell old upper + (cell new lower + rest)))
      (topPtr frames old))
    (word : upper.rbParentColor = packed (parentOf 0 frames) color) (next : Color) :
    Returns (rbRotateSetParents old new next) tree () fun after =>
      Holds after
        (frameCells 0 frames new + (cell old { upper with rbParentColor := packed new next } +
        (cell new { lower with rbParentColor := upper.rbParentColor } + rest)))
        (topPtr frames new) := by
  have above : rbParentOf upper.rbParentColor = parentOf 0 frames := by
    rw [word, rbParentOf_packed holds.free_parentOf]
  refine Returns.read holds.at_second.rbParent ?_
  rw [above]
  refine Returns.read holds.at_second.deref ?_
  refine ((acts_modifyNode new _ lower).at_third holds).bind fun tree holds => ?_
  refine ((acts_rbSetParentColor old new next upper).at_second holds).bind fun tree holds => ?_
  exact holds.rbChangeChild

/-- The side of a node below its parent, as the code finds it. -/
theorem side_eq {frame : Frame UInt64 α} {word ptr : UInt64} (other : rootPtr frame.sibling ≠ ptr) :
    (if ptr ≠ (rbNodeOf frame.side word ptr (rootPtr frame.sibling) frame.entry).child .right
      then Side.left else Side.right) = frame.side := by
  cases frame.side with
  | left => exact if_pos other.symm
  | right => exact if_neg fun different => different rfl

/-- `augment_rotate` does what a rotation does to the entries of the two nodes. The children of
the old upper node have their new parents already or not. -/
def Rotates (augment : Augment UInt64 α) (augmentRotate : AugmentRotate α) : Prop :=
  ∀ tree rest root old new (upper lower : RbNode α) side (near far : Tree UInt64 α)
    nearParent farParent,
    upper.child side = rootPtr near → upper.child side.other = rootPtr far →
    Holds tree (cell old upper + (cell new lower +
      (treeCells nearParent near + (treeCells farParent far + rest)))) root →
    Returns (augmentRotate old new) tree () fun after =>
      Holds after
        (cell old { upper with entry := augment.computeAt side near old upper.entry far } +
        (cell new { lower with entry := augment.copy upper.entry lower.entry } +
          (treeCells nearParent near + (treeCells farParent far + rest)))) root

/-- The old upper node is the root of a subtree afterwards. -/
theorem Rotates.join {augment : Augment UInt64 α} {augmentRotate : AugmentRotate α}
    (rotates : Rotates augment augmentRotate) {side : Side} {color : Color}
    {old new up word inner outer nearPtr farPtr : UInt64} {oldEntry newEntry : α}
    {near far : Tree UInt64 α} (nearRoot : nearPtr = rootPtr near) (farRoot : farPtr = rootPtr far)
    (holds : Holds tree (cell old (rbNodeOf side (packed up color) nearPtr farPtr oldEntry) +
      (cell new (rbNodeOf side word inner outer newEntry) +
        (treeCells old near + (treeCells old far + rest)))) root) :
    Returns (augmentRotate old new) tree () fun after =>
      Holds after (cell new (rbNodeOf side word inner outer (augment.copy oldEntry newEntry)) +
        (treeCells up (augment.join side color near old oldEntry far) + rest)) root := by
  subst nearRoot farRoot
  have rotated := rotates tree rest root old new _ _ side near far old old child_rbNodeOf
    child_other_rbNodeOf holds
  refine rotated.mono fun after holds => ?_
  simp only [with_entry_rbNodeOf, entry_rbNodeOf] at holds
  rw [Augment.join, treeCells_join]
  exact holds.second.of_eq (by simp only [add_assoc])

/-- `__rb_rotate_set_parents` and `augment_rotate`: the new upper node has the old one below it. -/
theorem Rotates.hang {augment : Augment UInt64 α} {augmentRotate : AugmentRotate α}
    (rotates : Rotates augment augmentRotate) {side : Side} {color : Color} (next : Color)
    {old new word inner outer nearPtr farPtr : UInt64} {oldEntry newEntry : α}
    {near far : Tree UInt64 α} (nearRoot : nearPtr = rootPtr near) (farRoot : farPtr = rootPtr far)
    (holds : Holds tree (frameCells 0 frames old +
      (cell old (rbNodeOf side (packed (parentOf 0 frames) color) nearPtr farPtr oldEntry) +
        (cell new (rbNodeOf side word inner outer newEntry) +
          (treeCells old near + (treeCells old far + rest))))) (topPtr frames old)) :
    Returns (do rbRotateSetParents old new next; augmentRotate old new) tree () fun after =>
      Holds after (frameCells 0 frames new +
        (cell new (rbNodeOf side (packed (parentOf 0 frames) color) inner outer
            (augment.copy oldEntry newEntry)) +
          (treeCells new (augment.join side next near old oldEntry far) + rest)))
        (topPtr frames new) := by
  refine (holds.rbRotateSetParents rbParentColor_rbNodeOf next).bind fun tree holds => ?_
  simp only [with_rbParentColor_rbNodeOf, rbParentColor_rbNodeOf] at holds
  exact (rotates.join nearRoot farRoot holds.fifth.fifth.fifth.fifth).mono fun _ held => held.third

theorem rotates_dummy : Rotates (Augment.none UInt64 α) dummyCallbacks.rotate := by
  intro tree rest root old new upper lower side near far nearParent farParent _ _ holds
  cases side <;> exact Returns.pure holds

end Links

end Xlinux
