/-
This file is about red-black trees that are repaired from the bottom up. A place
in a tree is a list of frames, the innermost first; a tree that hangs there is
joined to its parents one by one. Every node has a label, which stays with it,
and an entry, which may sum up the entries below and is brought up to date when
nodes are rotated.
-/

import Mathlib

namespace RedBlack

inductive Color
  | red
  | black
  deriving DecidableEq, Repr

/-- What a node adds to the number of black nodes on a path. -/
def Color.blacks : Color → Nat
  | .red => 0
  | .black => 1

inductive Side
  | left
  | right
  deriving DecidableEq, Repr

def Side.other : Side → Side
  | .left => .right
  | .right => .left

theorem Side.eq_other_of_ne {side other : Side} (different : other ≠ side) :
    other = side.other := by
  cases side <;> cases other <;> first | rfl | exact absurd rfl different

inductive Tree (ι α : Type)
  | leaf
  | node (color : Color) (left : Tree ι α) (label : ι) (entry : α) (right : Tree ι α)
  deriving DecidableEq, Repr

namespace Tree

variable {ι α : Type}
variable {tree : Tree ι α}

/-- A node with one subtree on the given side and another on the other side. -/
def join (side : Side) (color : Color) (near : Tree ι α) (label : ι) (entry : α)
    (far : Tree ι α) : Tree ι α :=
  match side with
  | .left => .node color near label entry far
  | .right => .node color far label entry near

/-- The subtree on a side. -/
def child (side : Side) : Tree ι α → Tree ι α
  | .leaf => .leaf
  | .node _ left _ _ right =>
    match side with
    | .left => left
    | .right => right

def isRed : Tree ι α → Bool
  | .node .red _ _ _ _ => true
  | _ => false

def recolor (color : Color) : Tree ι α → Tree ι α
  | .leaf => .leaf
  | .node _ left label entry right => .node color left label entry right

def rootEntry : Tree ι α → Option α
  | .leaf => none
  | .node _ _ _ entry _ => some entry

/-- The labels and entries from left to right. -/
def inorder : Tree ι α → List (ι × α)
  | .leaf => []
  | .node _ left label entry right => left.inorder ++ (label, entry) :: right.inorder

/-- The labels from left to right, with a part of each entry. -/
def parts {β : Type} (part : α → β) (tree : Tree ι α) : List (ι × β) :=
  tree.inorder.map (Prod.map id part)

/-- The labels from left to right. -/
def labels (tree : Tree ι α) : List ι :=
  tree.inorder.map Prod.fst

/-- No red node has a red child. -/
def NoRedRed : Tree ι α → Prop
  | .leaf => True
  | .node color left _ _ right =>
    (color = .red → left.isRed = false ∧ right.isRed = false) ∧ left.NoRedRed ∧ right.NoRedRed

/-- Every path from the root down has the same number of black nodes. -/
def Height : Tree ι α → Nat → Prop
  | .leaf, height => height = 0
  | .node color left _ _ right, height =>
    ∃ below, height = below + color.blacks ∧ left.Height below ∧ right.Height below

/-- A red-black tree. -/
structure Valid (tree : Tree ι α) : Prop where
  black : tree.isRed = false
  noRedRed : tree.NoRedRed
  height : ∃ height, tree.Height height

section Join

variable {side : Side} {color : Color} {near far : Tree ι α} {label : ι} {entry : α}

@[simp]
theorem isRed_join : (join side color near label entry far).isRed = decide (color = .red) := by
  cases side <;> cases color <;> rfl

@[simp]
theorem child_join : (join side color near label entry far).child side = near := by
  cases side <;> rfl

theorem noRedRed_join : (join side color near label entry far).NoRedRed ↔
    (color = .red → near.isRed = false ∧ far.isRed = false) ∧ near.NoRedRed ∧ far.NoRedRed := by
  cases side with
  | left => exact Iff.rfl
  | right =>
    constructor
    · exact fun ⟨red, left, right⟩ => ⟨fun isRed => (red isRed).symm, right, left⟩
    · exact fun ⟨red, near, far⟩ => ⟨fun isRed => (red isRed).symm, far, near⟩

theorem height_join {height : Nat} : (join side color near label entry far).Height height ↔
    ∃ below, height = below + color.blacks ∧ near.Height below ∧ far.Height below := by
  cases side with
  | left => exact Iff.rfl
  | right =>
    exact exists_congr fun below => and_congr_right fun _ => and_comm

@[simp]
theorem rootEntry_join : (join side color near label entry far).rootEntry = some entry := by
  cases side <;> rfl

@[simp]
theorem rootEntry_recolor {tree : Tree ι α} : (tree.recolor color).rootEntry = tree.rootEntry := by
  cases tree <;> rfl

@[simp]
theorem recolor_join {next : Color} : (join side color near label entry far).recolor next =
    join side next near label entry far := by
  cases side <;> rfl

theorem join_ne_leaf : join side color near label entry far ≠ .leaf := by
  cases side <;> nofun

end Join

/-- A tree that is not a leaf is a node with subtrees on either side. -/
theorem eq_join_of_ne_leaf (side : Side) (nonempty : tree ≠ .leaf) :
    ∃ color label entry,
      tree = join side color (tree.child side) label entry (tree.child side.other) := by
  cases tree with
  | leaf => exact absurd rfl nonempty
  | node color left label entry right =>
    refine ⟨color, label, entry, ?_⟩
    cases side <;> rfl

theorem exists_join_of_ne_leaf (side : Side) (nonempty : tree ≠ .leaf) :
    ∃ color near label entry far, tree = join side color near label entry far := by
  obtain ⟨color, label, entry, whole⟩ := eq_join_of_ne_leaf side nonempty
  exact ⟨color, _, label, entry, _, whole⟩

theorem ne_leaf_of_isRed (red : tree.isRed = true) : tree ≠ .leaf := by
  rintro rfl
  cases red

theorem exists_red_join (side : Side) (red : tree.isRed = true) :
    ∃ near label entry far, tree = join side .red near label entry far := by
  obtain ⟨color, near, label, entry, far, rfl⟩ := exists_join_of_ne_leaf side (ne_leaf_of_isRed red)
  obtain rfl : color = .red := by simpa using red
  exact ⟨near, label, entry, far, rfl⟩

theorem ne_leaf_of_height {height : Nat} (tall : tree.Height (height + 1)) : tree ≠ .leaf := by
  rintro rfl
  cases tall

theorem recolor_ne_leaf {color : Color} (nonempty : tree ≠ .leaf) : tree.recolor color ≠ .leaf := by
  cases tree with
  | leaf => exact absurd rfl nonempty
  | node => nofun

@[simp]
theorem isRed_recolor_black (tree : Tree ι α) : (tree.recolor .black).isRed = false := by
  cases tree <;> rfl

theorem recolor_black_of_not_red (black : tree.isRed = false) : tree.recolor .black = tree := by
  cases tree with
  | leaf => rfl
  | node color =>
    cases color with
    | red => cases black
    | black => rfl

theorem NoRedRed.recolor_black (noRedRed : tree.NoRedRed) : (tree.recolor .black).NoRedRed := by
  cases tree with
  | leaf => exact noRedRed
  | node => exact ⟨nofun, noRedRed.2⟩

theorem Height.recolor_black {height : Nat} (tall : tree.Height height)
    (red : tree.isRed = true) : (tree.recolor .black).Height (height + 1) := by
  cases tree with
  | leaf => cases red
  | node color =>
    cases color with
    | red =>
      obtain ⟨_, rfl, left, right⟩ := tall
      exact ⟨_, rfl, left, right⟩
    | black => cases red

section Parts

variable {β : Type} {part : α → β}

@[simp]
theorem parts_leaf : (leaf : Tree ι α).parts part = [] :=
  rfl

@[simp]
theorem parts_node {color : Color} {left right : Tree ι α} {label : ι} {entry : α} :
    (node color left label entry right).parts part =
      left.parts part ++ (label, part entry) :: right.parts part := by
  simp [parts, inorder]

theorem parts_id {tree : Tree ι α} : tree.parts id = tree.inorder :=
  List.map_id _

@[simp]
theorem parts_recolor {color : Color} {tree : Tree ι α} :
    (tree.recolor color).parts part = tree.parts part := by
  cases tree <;> rfl

/-- A node is read between its subtrees, whichever side they are given by. -/
theorem parts_join {side : Side} {color : Color} {near far : Tree ι α} {label : ι} {entry : α} :
    (join side color near label entry far).parts part =
      match side with
      | .left => near.parts part ++ (label, part entry) :: far.parts part
      | .right => far.parts part ++ (label, part entry) :: near.parts part := by
  cases side <;> exact parts_node

end Parts

end Tree

/-! ### Places in a tree -/

/-- A node on the way up from a place: the side the place is on, and the subtree on the other. -/
structure Frame (ι α : Type) where
  side : Side
  color : Color
  label : ι
  entry : α
  sibling : Tree ι α
  deriving DecidableEq, Repr

section Places

open RedBlack.Tree

variable {ι α : Type}
variable {tree : Tree ι α}

def Frame.plug (frame : Frame ι α) (tree : Tree ι α) : Tree ι α :=
  join frame.side frame.color tree frame.label frame.entry frame.sibling

theorem exists_plug_child (side : Side) (nonempty : tree ≠ .leaf) :
    ∃ frame : Frame ι α, tree = frame.plug (tree.child side) := by
  obtain ⟨color, label, entry, same⟩ := eq_join_of_ne_leaf side nonempty
  exact ⟨⟨side, color, label, entry, tree.child side.other⟩, same⟩

/-- The whole tree, with a subtree at a place. -/
def fill : List (Frame ι α) → Tree ι α → Tree ι α
  | [], tree => tree
  | frame :: rest, tree => fill rest (frame.plug tree)

theorem fill_append (inner outer : List (Frame ι α)) (tree : Tree ι α) :
    fill (inner ++ outer) tree = fill outer (fill inner tree) := by
  induction inner generalizing tree with
  | nil => rfl
  | cons frame rest ih => exact ih (frame.plug tree)

section Parts

variable {β : Type} (part : α → β)

/-- What is read before a place. -/
def before : List (Frame ι α) → List (ι × β)
  | [] => []
  | frame :: rest =>
    before rest ++
      match frame.side with
      | .left => []
      | .right => frame.sibling.parts part ++ [(frame.label, part frame.entry)]

/-- What is read after a place. -/
def after : List (Frame ι α) → List (ι × β)
  | [] => []
  | frame :: rest =>
    (match frame.side with
      | .left => (frame.label, part frame.entry) :: frame.sibling.parts part
      | .right => []) ++ after rest

variable {part}

theorem parts_fill (frames : List (Frame ι α)) (tree : Tree ι α) :
    (fill frames tree).parts part = before part frames ++
      (tree.parts part ++ after part frames) := by
  induction frames generalizing tree with
  | nil => simp [fill, before, after]
  | cons frame rest ih =>
    rw [fill, ih, Frame.plug, parts_join, before, after]
    cases frame.side <;> simp

theorem parts_fill_congr {tree other : Tree ι α} (same : tree.parts part = other.parts part)
    (frames : List (Frame ι α)) :
    (fill frames tree).parts part = (fill frames other).parts part := by
  rw [parts_fill, parts_fill, same]

end Parts

/-- Every node of a tree is at a place. -/
theorem exists_fill_of_mem {label : ι} {entry : α} (member : (label, entry) ∈ tree.inorder) :
    ∃ frames color left right, tree = fill frames (.node color left label entry right) := by
  induction tree with
  | leaf => cases member
  | node color left other otherEntry right leftPlace rightPlace =>
    rcases List.mem_append.mp member with inLeft | inRight
    · obtain ⟨frames, found⟩ := leftPlace inLeft
      obtain ⟨nodeColor, nodeLeft, nodeRight, rfl⟩ := found
      refine ⟨frames ++ [⟨.left, color, other, otherEntry, right⟩], nodeColor, nodeLeft,
        nodeRight, ?_⟩
      rw [fill_append]
      rfl
    · rcases List.mem_cons.mp inRight with same | inRight
      · cases same
        exact ⟨[], color, left, right, rfl⟩
      · obtain ⟨frames, found⟩ := rightPlace inRight
        obtain ⟨nodeColor, nodeLeft, nodeRight, rfl⟩ := found
        refine ⟨frames ++ [⟨.right, color, other, otherEntry, left⟩], nodeColor, nodeLeft,
          nodeRight, ?_⟩
        rw [fill_append]
        rfl

/-- A red tree may hang at a place whose parent is black. -/
def AllowsRed : List (Frame ι α) → Prop
  | [] => False
  | frame :: _ => frame.color = .black

/-- A tree of a height at this place makes the whole tree a red-black tree. -/
def Path : List (Frame ι α) → Nat → Prop
  | [], _ => True
  | frame :: rest, height =>
    frame.sibling.NoRedRed ∧ frame.sibling.Height height ∧
      (frame.color = .red → frame.sibling.isRed = false ∧ AllowsRed rest) ∧
      Path rest (height + frame.color.blacks)

theorem valid_fill_iff {frames : List (Frame ι α)} :
    (fill frames tree).Valid ↔ ∃ height, Path frames height ∧ tree.NoRedRed ∧ tree.Height height ∧
      (tree.isRed = true → AllowsRed frames) := by
  induction frames generalizing tree with
  | nil =>
    constructor
    · rintro ⟨black, noRedRed, height, tall⟩
      exact ⟨height, trivial, noRedRed, tall, fun red => absurd (black.symm.trans red) nofun⟩
    · rintro ⟨height, _, noRedRed, tall, black⟩
      exact ⟨Bool.eq_false_iff.mpr black, noRedRed, height, tall⟩
  | cons frame rest ih =>
    simp only [fill, ih, Frame.plug, noRedRed_join, height_join, isRed_join, decide_eq_true_eq]
    constructor
    · rintro ⟨_, path, ⟨red, noRedRed, sibling⟩, ⟨below, rfl, tall, siblingTall⟩, allowed⟩
      refine ⟨below, ⟨sibling, siblingTall, fun isRed => ⟨(red isRed).2, allowed isRed⟩, path⟩,
        noRedRed, tall, fun treeRed => ?_⟩
      cases color : frame.color with
      | red => exact absurd ((red color).1.symm.trans treeRed) nofun
      | black => exact color
    · rintro ⟨height, ⟨sibling, siblingTall, red, path⟩, noRedRed, tall, allowed⟩
      refine ⟨_, path, ⟨fun isRed => ⟨?_, (red isRed).1⟩, noRedRed, sibling⟩,
        ⟨height, rfl, tall, siblingTall⟩, fun isRed => (red isRed).2⟩
      refine Bool.eq_false_iff.mpr fun treeRed => ?_
      have black : frame.color = .black := allowed treeRed
      exact absurd (isRed.symm.trans black) nofun

end Places

/-! ### Entries that sum up a subtree -/

/-- How entries change: a node that takes the place of another gets its entry from it, and an
entry is computed again from the label and the entries of the children. -/
structure Augment (ι α : Type) where
  copy : (old new : α) → α
  compute : (left : Option α) → ι → α → (right : Option α) → α

/-- Entries that stay as they are. -/
def Augment.none (ι α : Type) : Augment ι α := ⟨fun _ new => new, fun _ _ entry _ => entry⟩

/-- A part of the entries that only goes with the label. -/
structure Augment.Keeps {ι α β : Type} (augment : Augment ι α) (part : α → β) : Prop where
  copy : ∀ old new, part (augment.copy old new) = part new
  compute : ∀ left label entry right, part (augment.compute left label entry right) = part entry

section Repair

open RedBlack.Tree

variable {ι α β : Type} (augment : Augment ι α)
variable {gparent parent : Frame ι α} {height : Nat}

/-- The entry of a node, computed from the subtrees on its two sides. -/
def Augment.computeAt (side : Side) (near : Tree ι α) (label : ι) (entry : α)
    (far : Tree ι α) : α :=
  match side with
  | .left => augment.compute near.rootEntry label entry far.rootEntry
  | .right => augment.compute far.rootEntry label entry near.rootEntry

variable {augment} in
theorem Augment.Keeps.computeAt {part : α → β} (keeps : augment.Keeps part) (side : Side)
    (near : Tree ι α) (label : ι) (entry : α) (far : Tree ι α) :
    part (augment.computeAt side near label entry far) = part entry := by
  cases side <;> exact keeps.compute ..

/-- A node with its entry computed again. -/
def Augment.join (side : Side) (color : Color) (near : Tree ι α) (label : ι) (entry : α)
    (far : Tree ι α) : Tree ι α :=
  Tree.join side color near label (augment.computeAt side near label entry far) far

/-- The rotations at the grandparent of a red node with a red parent. If the node is on the inner
side, it changes places with its parent first. -/
def insertRotate (gparent parent : Frame ι α) (focus : Tree ι α) : Tree ι α :=
  let side := gparent.side
  if parent.side = side then
    Tree.join side gparent.color focus parent.label (augment.copy gparent.entry parent.entry)
      (augment.join side .red (parent.sibling.recolor .black) gparent.label gparent.entry
        gparent.sibling)
  else
    match focus with
    | .leaf => gparent.plug (parent.plug focus)
    | .node _ _ label entry _ =>
      Tree.join side gparent.color (augment.join side .red parent.sibling parent.label parent.entry
          ((focus.child side).recolor .black))
        label (augment.copy gparent.entry (augment.copy parent.entry entry))
        (augment.join side .red ((focus.child side.other).recolor .black) gparent.label
          gparent.entry gparent.sibling)

/-- Repair a tree in which a red node hangs at a place whose parent may be red. -/
def insertFix : List (Frame ι α) → Tree ι α → Tree ι α
  | [], focus => focus.recolor .black
  | [parent], focus => parent.plug focus
  | parent :: gparent :: rest, focus =>
    if parent.color = .black then fill (parent :: gparent :: rest) focus
    else if gparent.sibling.isRed then
      insertFix rest (Tree.join gparent.side .red
        (Tree.join parent.side .black focus parent.label parent.entry parent.sibling)
        gparent.label gparent.entry (gparent.sibling.recolor .black))
    else fill rest (insertRotate augment gparent parent focus)

variable {augment}

theorem insertRotate_outer (same : parent.side = gparent.side) (focus : Tree ι α) :
    insertRotate augment gparent parent focus =
      Tree.join gparent.side gparent.color focus parent.label
        (augment.copy gparent.entry parent.entry)
        (augment.join gparent.side .red (parent.sibling.recolor .black) gparent.label
          gparent.entry gparent.sibling) :=
  if_pos same

theorem insertRotate_inner (different : parent.side ≠ gparent.side)
    {color : Color} {near far : Tree ι α} {label : ι} {entry : α} :
    insertRotate augment gparent parent (Tree.join gparent.side color near label entry far) =
      Tree.join gparent.side gparent.color
        (augment.join gparent.side .red parent.sibling parent.label parent.entry
          (near.recolor .black))
        label (augment.copy gparent.entry (augment.copy parent.entry entry))
        (augment.join gparent.side .red (far.recolor .black) gparent.label gparent.entry
          gparent.sibling) := by
  simp only [insertRotate, if_neg different]
  cases gparent.side <;> rfl

variable (augment) in
/-- A red node with a red parent and a black uncle. -/
theorem insertRotate_spec {focus : Tree ι α} (red : focus.isRed = true) (noRedRed : focus.NoRedRed)
    (tall : focus.Height height) (parentSibling : parent.sibling.NoRedRed)
    (parentTall : parent.sibling.Height height) (parentBlack : parent.sibling.isRed = false)
    (uncle : gparent.sibling.NoRedRed) (uncleTall : gparent.sibling.Height height)
    (uncleBlack : gparent.sibling.isRed = false) (black : gparent.color = .black) :
    (insertRotate augment gparent parent focus).isRed = false ∧
      (insertRotate augment gparent parent focus).NoRedRed ∧
      (insertRotate augment gparent parent focus).Height (height + 1) := by
  by_cases same : parent.side = gparent.side
  · rw [insertRotate_outer same, recolor_black_of_not_red parentBlack, black]
    refine ⟨isRed_join, ?_, ?_⟩
    · simp [Augment.join, noRedRed_join, *]
    · exact height_join.mpr
        ⟨height, rfl, tall, height_join.mpr ⟨height, rfl, parentTall, uncleTall⟩⟩
  · obtain ⟨_, _, _, _, rfl⟩ := exists_red_join gparent.side red
    obtain ⟨children, _, _⟩ := noRedRed_join.mp noRedRed
    obtain ⟨nearBlack, farBlack⟩ := children rfl
    obtain ⟨_, rfl, nearTall, farTall⟩ := height_join.mp tall
    rw [insertRotate_inner same, recolor_black_of_not_red nearBlack,
      recolor_black_of_not_red farBlack, black]
    refine ⟨isRed_join, ?_, ?_⟩
    · simp [Augment.join, noRedRed_join, *]
    · exact height_join.mpr ⟨_, rfl, height_join.mpr ⟨_, rfl, parentTall, nearTall⟩,
        height_join.mpr ⟨_, rfl, farTall, uncleTall⟩⟩

/-- Above a red parent there is a black grandparent. -/
theorem Path.above_red {rest : List (Frame ι α)}
    (path : Path (parent :: gparent :: rest) height) (red : parent.color ≠ .black) :
    (parent.sibling.NoRedRed ∧ parent.sibling.Height height ∧ parent.sibling.isRed = false) ∧
      gparent.color = .black ∧ gparent.sibling.NoRedRed ∧ gparent.sibling.Height height ∧
      Path rest (height + 1) := by
  obtain ⟨sibling, siblingTall, allowed, uncle, uncleTall, _, above⟩ := path
  have red : parent.color = .red := by
    cases color : parent.color with
    | red => rfl
    | black => exact absurd color red
  obtain ⟨siblingBlack, black⟩ := allowed red
  rw [red] at uncleTall above
  rw [show gparent.color = .black from black] at above
  exact ⟨⟨sibling, siblingTall, siblingBlack⟩, black, uncle, uncleTall, above⟩

theorem valid_insertFix {frames : List (Frame ι α)} {focus : Tree ι α}
    (path : Path frames height) (red : focus.isRed = true) (noRedRed : focus.NoRedRed)
    (tall : focus.Height height) : (insertFix augment frames focus).Valid := by
  fun_induction insertFix augment frames focus generalizing height with
  | case1 focus =>
    exact ⟨isRed_recolor_black focus, noRedRed.recolor_black, height + 1, tall.recolor_black red⟩
  | case2 parent focus =>
    have black : AllowsRed [parent] := by
      cases color : parent.color with
      | red => exact absurd (path.2.2.1 color).2 id
      | black => exact color
    exact valid_fill_iff.mpr ⟨height, path, noRedRed, tall, fun _ => black⟩
  | case3 parent gparent rest focus black =>
    exact valid_fill_iff.mpr ⟨height, path, noRedRed, tall, fun _ => black⟩
  | case4 parent gparent rest focus parentRed uncleRed ih =>
    obtain ⟨⟨sibling, siblingTall, _⟩, _, uncle, uncleTall, above⟩ := path.above_red parentRed
    refine ih above (by simp) ?_ ?_
    · simp [noRedRed_join, *, uncle.recolor_black]
    · exact height_join.mpr ⟨height + 1, rfl, height_join.mpr ⟨height, rfl, tall, siblingTall⟩,
        uncleTall.recolor_black uncleRed⟩
  | case5 parent gparent rest focus parentRed uncleBlack =>
    obtain ⟨⟨sibling, siblingTall, siblingBlack⟩, black, uncle, uncleTall, above⟩ :=
      path.above_red parentRed
    obtain ⟨rootBlack, repaired, repairedTall⟩ := insertRotate_spec augment red noRedRed tall
      sibling siblingTall siblingBlack uncle uncleTall (Bool.eq_false_iff.mpr uncleBlack) black
    exact valid_fill_iff.mpr ⟨height + 1, above, repaired, repairedTall,
      fun isRed => absurd (rootBlack.symm.trans isRed) nofun⟩

/-- A red node is linked where there was none. -/
theorem valid_insertFix_leaf {frames : List (Frame ι α)} {label : ι} {entry : α}
    (valid : (fill frames .leaf).Valid) :
    (insertFix augment frames (.node .red .leaf label entry .leaf)).Valid := by
  obtain ⟨height, path, _, tall, _⟩ := valid_fill_iff.mp valid
  obtain rfl : height = 0 := tall
  exact valid_insertFix path rfl ⟨fun _ => ⟨rfl, rfl⟩, trivial, trivial⟩ ⟨0, rfl, rfl, rfl⟩

theorem parts_insertRotate {part : α → β} (keeps : augment.Keeps part) (gparent parent : Frame ι α)
    (focus : Tree ι α) :
    (insertRotate augment gparent parent focus).parts part =
      (gparent.plug (parent.plug focus)).parts part := by
  by_cases same : parent.side = gparent.side
  · rw [insertRotate_outer same]
    cases side : gparent.side <;>
      simp [Frame.plug, Augment.join, parts_join, side, same, keeps.copy, keeps.computeAt]
  · by_cases nonempty : focus = .leaf
    · subst nonempty
      simp only [insertRotate, if_neg same]
    · obtain ⟨_, _, _, _, _, rfl⟩ := exists_join_of_ne_leaf gparent.side nonempty
      rw [insertRotate_inner same]
      have other := Side.eq_other_of_ne same
      cases side : gparent.side <;>
        simp [Frame.plug, Augment.join, parts_join, side, other, Side.other, keeps.copy,
          keeps.computeAt]

theorem parts_insertFix {part : α → β} (keeps : augment.Keeps part) (frames : List (Frame ι α))
    (focus : Tree ι α) :
    (insertFix augment frames focus).parts part = (fill frames focus).parts part := by
  fun_induction insertFix augment frames focus with
  | case1 focus => exact parts_recolor
  | case2 parent focus => rfl
  | case3 parent gparent rest focus black => rfl
  | case4 parent gparent rest focus parentRed uncleRed ih =>
    rw [ih]
    refine parts_fill_congr ?_ rest
    simp only [Frame.plug, parts_join, parts_recolor]
  | case5 parent gparent rest focus parentRed uncleBlack =>
    exact parts_fill_congr (parts_insertRotate keeps gparent parent focus) rest

end Repair

end RedBlack
