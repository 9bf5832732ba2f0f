/-
This file takes a node out of a red-black tree. The node is unlinked, or its
successor takes its place; then a subtree may be one black node short, and the
tree is repaired on the way up from there.
-/

import Xlinux.Lib.RedBlack

namespace RedBlack

open RedBlack.Tree List

variable {ι α β : Type} {part : α → β}

/-! ### A subtree that is one black node short -/

section Repair

variable (augment : Augment ι α)

/-- Repair at a parent with a black sibling: the subtree at the place of the parent, and whether
that is one black node short now. -/
def eraseBalance (parent : Frame ι α) (focus : Tree ι α) : Tree ι α × Bool :=
  let side := parent.side
  match parent.sibling with
  | .leaf => (parent.plug focus, false)
  | .node color left label entry right =>
    let sibling := Tree.node color left label entry right
    if (sibling.child side.other).isRed then
      (Tree.join side parent.color
        (augment.join side .black focus parent.label parent.entry (sibling.child side))
        label (augment.copy parent.entry entry)
        ((sibling.child side.other).recolor .black), false)
    else
      match sibling.child side with
      | .node .red nearLeft nearLabel nearEntry nearRight =>
        let near := Tree.node .red nearLeft nearLabel nearEntry nearRight
        (Tree.join side parent.color
          (augment.join side .black focus parent.label parent.entry (near.child side))
          nearLabel (augment.copy parent.entry (augment.copy entry nearEntry))
          (augment.join side .black ((near.child side.other).recolor .black) label entry
            (sibling.child side.other)), false)
      | _ =>
        (Tree.join side .black focus parent.label parent.entry (sibling.recolor .red),
          decide (parent.color = .black))

/-- The two frames over a place after a red sibling has been rotated over its parent: the parent,
which is red now, and the sibling. -/
def eraseRotate (parent : Frame ι α) (focus : Tree ι α) : List (Frame ι α) :=
  let side := parent.side
  match parent.sibling with
  | .leaf => [parent]
  | .node color left label entry right =>
    let sibling := Tree.node color left label entry right
    let near := (sibling.child side).recolor .black
    [⟨side, .red, parent.label, augment.computeAt side focus parent.label parent.entry near, near⟩,
      ⟨side, parent.color, label, augment.copy parent.entry entry, sibling.child side.other⟩]

/-- Repair a tree in which the subtree at a place is one black node short. -/
def eraseFix : List (Frame ι α) → Tree ι α → Tree ι α
  | [], focus => focus
  | parent :: rest, focus =>
    if parent.sibling.isRed then
      match eraseRotate augment parent focus with
      | lower :: upper => fill (upper ++ rest) (eraseBalance augment lower focus).1
      | [] => fill (parent :: rest) focus
    else if (eraseBalance augment parent focus).2 then
      eraseFix rest (eraseBalance augment parent focus).1
    else fill rest (eraseBalance augment parent focus).1

variable {augment}

section Cases

variable {parent : Frame ι α} {focus near far inner outer : Tree ι α} {color nearColor : Color}
  {label nearLabel : ι} {entry nearEntry : α}

/-- Only the near child of the sibling is red. -/
theorem eraseBalance_near (sibling : parent.sibling = Tree.join parent.side color
      (Tree.join parent.side .red inner nearLabel nearEntry outer) label entry far)
    (black : far.isRed = false) :
    eraseBalance augment parent focus = (Tree.join parent.side parent.color
        (augment.join parent.side .black focus parent.label parent.entry inner)
        nearLabel (augment.copy parent.entry (augment.copy entry nearEntry))
        (augment.join parent.side .black (outer.recolor .black) label entry far), false) := by
  cases side : parent.side <;> simp_all [eraseBalance, join, child, Side.other]

variable (sibling : parent.sibling = Tree.join parent.side color near label entry far)

include sibling

/-- The far child of the sibling is red. -/
theorem eraseBalance_far (red : far.isRed = true) :
    eraseBalance augment parent focus = (Tree.join parent.side parent.color
        (augment.join parent.side .black focus parent.label parent.entry near)
        label (augment.copy parent.entry entry) (far.recolor .black), false) := by
  cases side : parent.side <;> simp_all [eraseBalance, join, child, Side.other]

/-- Both children of the sibling are black. -/
theorem eraseBalance_flip (nearBlack : near.isRed = false) (farBlack : far.isRed = false) :
    eraseBalance augment parent focus =
      (Tree.join parent.side .black focus parent.label parent.entry (parent.sibling.recolor .red),
        decide (parent.color = .black)) := by
  cases near with
  | leaf =>
    cases side : parent.side <;> simp_all [eraseBalance, join, child, Side.other]
  | node nearColor =>
    cases nearColor with
    | red => cases nearBlack
    | black =>
      cases side : parent.side <;> simp_all [eraseBalance, join, child, Side.other]

/-- The places at which `eraseBalance` does something else. -/
inductive EraseCase (parent : Frame ι α) : Prop
  | empty (none : parent.sibling = .leaf)
  | far {color : Color} {near far : Tree ι α} {label : ι} {entry : α}
    (whole : parent.sibling = Tree.join parent.side color near label entry far)
    (red : far.isRed = true)
  | near {color : Color} {inner outer far : Tree ι α} {nearLabel label : ι} {nearEntry entry : α}
    (whole : parent.sibling = Tree.join parent.side color
      (Tree.join parent.side .red inner nearLabel nearEntry outer) label entry far)
    (black : far.isRed = false)
  | flip {color : Color} {near far : Tree ι α} {label : ι} {entry : α}
    (whole : parent.sibling = Tree.join parent.side color near label entry far)
    (nearBlack : near.isRed = false) (farBlack : far.isRed = false)

omit sibling in
theorem eraseCase (parent : Frame ι α) : EraseCase parent := by
  by_cases nonempty : parent.sibling = .leaf
  · exact .empty nonempty
  obtain ⟨_, near, _, _, far, whole⟩ := exists_join_of_ne_leaf parent.side nonempty
  cases farRed : far.isRed with
  | true => exact .far whole farRed
  | false =>
    cases nearRed : near.isRed with
    | true =>
      obtain ⟨_, _, _, _, rfl⟩ := exists_red_join parent.side nearRed
      exact .near whole farRed
    | false => exact .flip whole nearRed farRed

omit sibling in
/-- The repair goes on only where nothing has been rotated and the parent was black. -/
theorem eraseBalance_again (again : (eraseBalance augment parent focus).2 = true) :
    parent.color = .black ∧ (eraseBalance augment parent focus).1 =
      Tree.join parent.side .black focus parent.label parent.entry
        (parent.sibling.recolor .red) := by
  cases eraseCase parent with
  | empty none => simp [eraseBalance, none] at again
  | far whole red => simp [eraseBalance_far whole red] at again
  | near whole black => simp [eraseBalance_near whole black] at again
  | flip whole nearBlack farBlack =>
    rw [eraseBalance_flip whole nearBlack farBlack] at again ⊢
    exact ⟨by simpa using again, rfl⟩

theorem eraseRotate_join :
    eraseRotate augment parent focus = [⟨parent.side, .red, parent.label,
          augment.computeAt parent.side focus parent.label parent.entry (near.recolor .black),
          near.recolor .black⟩,
        ⟨parent.side, parent.color, label, augment.copy parent.entry entry, far⟩] := by
  cases side : parent.side <;> simp_all [eraseRotate, join, child, Side.other]

end Cases

variable (augment) in
/-- A black sibling that is taller than the subtree at the place. -/
theorem eraseBalance_spec {parent : Frame ι α} {focus : Tree ι α} {height : Nat}
    (noRedRed : focus.NoRedRed) (tall : focus.Height height) (sibling : parent.sibling.NoRedRed)
    (siblingTall : parent.sibling.Height (height + 1))
    (siblingBlack : parent.sibling.isRed = false) :
    let repaired := eraseBalance augment parent focus
    repaired.1.NoRedRed ∧ (repaired.2 = true → parent.color = .black ∧ repaired.1.isRed = false ∧
        repaired.1.Height (height + 1)) ∧
      (repaired.2 = false → repaired.1.Height (height + 1 + parent.color.blacks) ∧
        (repaired.1.isRed = true → parent.color = .red)) := by
  obtain ⟨color, near, label, entry, far, whole⟩ :=
    exists_join_of_ne_leaf parent.side (ne_leaf_of_height siblingTall)
  rw [whole] at sibling siblingTall siblingBlack
  obtain rfl : color = .black := by
    cases color with
    | red => simp at siblingBlack
    | black => rfl
  obtain ⟨_, nearOk, farOk⟩ := noRedRed_join.mp sibling
  obtain ⟨_, below, nearTall, farTall⟩ := height_join.mp siblingTall
  cases below
  cases farRed : far.isRed with
  | true =>
    rw [eraseBalance_far whole farRed]
    refine ⟨?_, by simp, fun _ => ⟨?_, by simp⟩⟩
    · simp [Augment.join, noRedRed_join, farOk.recolor_black, *]
    · exact height_join.mpr ⟨height + 1, rfl, height_join.mpr ⟨height, rfl, tall, nearTall⟩,
        farTall.recolor_black farRed⟩
  | false =>
    cases nearRed : near.isRed with
    | true =>
      obtain ⟨_, _, _, _, rfl⟩ := exists_red_join parent.side nearRed
      obtain ⟨children, _, _⟩ := noRedRed_join.mp nearOk
      obtain ⟨_, rfl, innerTall, outerTall⟩ := height_join.mp nearTall
      rw [eraseBalance_near whole farRed, recolor_black_of_not_red (children rfl).2]
      refine ⟨?_, by simp, fun _ => ⟨?_, by simp⟩⟩
      · simp [Augment.join, noRedRed_join, *]
      · exact height_join.mpr ⟨_, rfl, height_join.mpr ⟨_, rfl, tall, innerTall⟩,
          height_join.mpr ⟨_, rfl, outerTall, farTall⟩⟩
    | false =>
      rw [eraseBalance_flip whole nearRed farRed, whole, recolor_join]
      have flipped : (join parent.side .black focus parent.label parent.entry
          (join parent.side .red near label entry far)).Height (height + 1) :=
        height_join.mpr ⟨height, rfl, tall, height_join.mpr ⟨height, rfl, nearTall, farTall⟩⟩
      refine ⟨?_, fun short => ⟨by simpa using short, by simp, flipped⟩, fun enough => ?_⟩
      · simp [noRedRed_join, *]
      · have red : parent.color = .red := by
          cases color : parent.color with
          | red => rfl
          | black => simp [color] at enough
        rw [red]
        exact ⟨flipped, fun _ => rfl⟩

theorem valid_eraseFix {frames : List (Frame ι α)} {focus : Tree ι α} {height : Nat}
    (path : Path frames (height + 1)) (black : focus.isRed = false) (noRedRed : focus.NoRedRed)
    (tall : focus.Height height) : (eraseFix augment frames focus).Valid := by
  induction frames generalizing focus height with
  | nil => exact ⟨black, noRedRed, height, tall⟩
  | cons parent rest ih =>
    obtain ⟨sibling, siblingTall, allowed, above⟩ := path
    rw [eraseFix]
    cases siblingRed : parent.sibling.isRed with
    | true =>
      have parentBlack : parent.color = .black := by
        cases color : parent.color with
        | red => exact absurd ((allowed color).1.symm.trans siblingRed) nofun
        | black => rfl
      obtain ⟨near, label, entry, _, whole⟩ := exists_red_join parent.side siblingRed
      rw [whole] at sibling siblingTall
      obtain ⟨children, nearOk, farOk⟩ := noRedRed_join.mp sibling
      obtain ⟨_, rfl, nearTall, farTall⟩ := height_join.mp siblingTall
      rw [eraseRotate_join whole, recolor_black_of_not_red (children rfl).1]
      -- the parent is red now, so that the repair ends there
      let lower : Frame ι α := ⟨parent.side, .red, parent.label,
        augment.computeAt parent.side focus parent.label parent.entry near, near⟩
      have lowerTall : lower.sibling.Height (height + 1) := nearTall
      obtain ⟨ok, short, enough⟩ :=
        eraseBalance_spec augment noRedRed tall nearOk lowerTall (children rfl).1
      have ends : (eraseBalance augment lower focus).2 = false :=
        Bool.eq_false_iff.mpr fun again => absurd (short again).1 nofun
      rw [parentBlack] at above ⊢
      refine valid_fill_iff.mpr ⟨height + 1, ⟨farOk, farTall, nofun, above⟩, ok, (enough ends).1,
        fun _ => rfl⟩
    | false =>
      obtain ⟨ok, short, enough⟩ := eraseBalance_spec augment noRedRed tall sibling siblingTall
        siblingRed
      cases again : (eraseBalance augment parent focus).2 with
      | true =>
        obtain ⟨parentBlack, rootBlack, repairedTall⟩ := short again
        rw [parentBlack] at above
        exact ih above rootBlack ok repairedTall
      | false =>
        obtain ⟨repairedTall, red⟩ := enough again
        exact valid_fill_iff.mpr ⟨_, above, ok, repairedTall, fun isRed => (allowed (red isRed)).2⟩

theorem parts_eraseBalance (keeps : augment.Keeps part) (parent : Frame ι α) (focus : Tree ι α) :
    (eraseBalance augment parent focus).1.parts part = (parent.plug focus).parts part := by
  cases eraseCase parent with
  | empty none => simp [eraseBalance, none]
  | far whole red =>
    rw [eraseBalance_far whole red, Frame.plug, whole]
    cases parent.side <;> simp [Augment.join, parts_join, keeps.copy, keeps.computeAt]
  | near whole black =>
    rw [eraseBalance_near whole black, Frame.plug, whole]
    cases parent.side <;> simp [Augment.join, parts_join, keeps.copy, keeps.computeAt]
  | flip whole nearBlack farBlack =>
    rw [eraseBalance_flip whole nearBlack farBlack, Frame.plug]
    cases parent.side <;> simp [parts_join]

theorem parts_eraseFix (keeps : augment.Keeps part) (frames : List (Frame ι α)) (focus : Tree ι α) :
    (eraseFix augment frames focus).parts part = (fill frames focus).parts part := by
  induction frames generalizing focus with
  | nil => rfl
  | cons parent rest ih =>
    rw [eraseFix]
    split
    case isTrue siblingRed =>
      obtain ⟨_, _, _, _, whole⟩ := exists_red_join parent.side siblingRed
      rw [eraseRotate_join whole]
      refine parts_fill_congr ?_ rest
      rw [Frame.plug, Frame.plug, parts_join, parts_eraseBalance keeps, Frame.plug, whole]
      cases parent.side <;>
        simp [parts_join, keeps.copy, keeps.computeAt]
    case isFalse =>
      split
      · rw [ih]
        exact parts_fill_congr (parts_eraseBalance keeps parent focus) rest
      · exact parts_fill_congr (parts_eraseBalance keeps parent focus) rest

end Repair

/-! ### The place of a node with one child -/

section Settle

variable {frames other : List (Frame ι α)}

/-- What a frame needs for a red-black tree: neither labels nor entries matter. -/
def Frame.shape (frame : Frame ι α) : Color × Tree ι α := (frame.color, frame.sibling)

section

variable (same : frames.map Frame.shape = other.map Frame.shape)

include same

theorem allowsRed_congr : AllowsRed frames ↔ AllowsRed other := by
  cases frames with
  | nil =>
    obtain rfl := map_eq_nil_iff.mp same.symm
    exact Iff.rfl
  | cons =>
    cases other with
    | nil => cases same
    | cons => rw [AllowsRed, AllowsRed, (Prod.mk.inj (cons.inj same).1).1]

theorem path_congr {height : Nat} : Path frames height ↔ Path other height := by
  induction frames generalizing other height with
  | nil =>
    obtain rfl := map_eq_nil_iff.mp same.symm
    exact Iff.rfl
  | cons frame rest ih =>
    cases other with
    | nil => cases same
    | cons otherFrame otherRest =>
      obtain ⟨first, tail⟩ := cons.inj same
      obtain ⟨color, sibling⟩ := Prod.mk.inj first
      rw [Path, Path, color, sibling, allowsRed_congr tail, ih tail]

theorem valid_fill_congr {tree : Tree ι α} :
    (fill frames tree).Valid ↔ (fill other tree).Valid := by
  simp only [valid_fill_iff, path_congr same, allowsRed_congr same]

end

variable (augment : Augment ι α)

/-- Leave a place to what is left of a node with at most one child; `short` says that a black
node without children is gone. -/
def settle (frames : List (Frame ι α)) (short : Bool) (child : Tree ι α) : Tree ι α :=
  if short then eraseFix augment frames child else fill frames child

variable {augment}

/-- A node without a child on one side is red and has no child, or is black and has at most one
child, which is red. -/
theorem single_child {side : Side} {color : Color} {label : ι} {entry : α} {child : Tree ι α}
    {height : Nat} (noRedRed : (Tree.join side color .leaf label entry child).NoRedRed)
    (tall : (Tree.join side color .leaf label entry child).Height height) :
    height = color.blacks ∧
      (child = .leaf ∨ color = .black ∧ child.isRed = true ∧ child.NoRedRed ∧ child.Height 0) := by
  obtain ⟨red, _, childOk⟩ := noRedRed_join.mp noRedRed
  obtain ⟨below, rfl, bottom, childTall⟩ := height_join.mp tall
  obtain rfl : below = 0 := bottom
  refine ⟨Nat.zero_add _, ?_⟩
  cases child with
  | leaf => exact .inl rfl
  | node childColor =>
    right
    cases childColor with
    | red =>
      refine ⟨?_, rfl, childOk, childTall⟩
      cases color with
      | red => exact absurd (red rfl).2 nofun
      | black => rfl
    | black =>
      obtain ⟨_, wrong, _⟩ := childTall
      cases wrong

/-- The place of a node without a child on one side is left to its other child, which becomes
black. -/
theorem settled {side : Side} {color : Color} {label : ι} {entry : α} {child : Tree ι α}
    (valid : (fill frames (Tree.join side color .leaf label entry child)).Valid)
    (same : other.map Frame.shape = frames.map Frame.shape) :
    (color = .black ∧ child = .leaf → Path other 1) ∧
      (¬(color = .black ∧ child = .leaf) → (fill other (child.recolor .black)).Valid) ∧
      (child ≠ .leaf → color = .black) := by
  obtain ⟨_, path, noRedRed, tall, _⟩ := valid_fill_iff.mp valid
  rw [← path_congr same] at path
  obtain ⟨rfl, rfl | ⟨rfl, red, childOk, childTall⟩⟩ := single_child noRedRed tall
  · refine ⟨fun ⟨black, _⟩ => by rwa [black] at path,
      fun notBlack => ?_, absurd rfl⟩
    cases color with
    | red => exact valid_fill_iff.mpr ⟨0, path, trivial, rfl, nofun⟩
    | black => exact absurd ⟨rfl, rfl⟩ notBlack
  · refine ⟨fun ⟨_, empty⟩ => absurd empty (ne_leaf_of_isRed red), fun _ => ?_, fun _ => rfl⟩
    exact valid_fill_iff.mpr ⟨1, path, childOk.recolor_black, childTall.recolor_black red,
      fun isRed => absurd ((isRed_recolor_black child).symm.trans isRed) nofun⟩

end Settle

/-! ### Entries on the way up -/

section Entries

variable [DecidableEq α] (augment : Augment ι α)

/-- Compute the entries on the way up again, until one does not change. -/
def propagate : List (Frame ι α) → Tree ι α → List (Frame ι α)
  | [], _ => []
  | frame :: rest, focus =>
    let entry := augment.computeAt frame.side focus frame.label frame.entry frame.sibling
    if entry = frame.entry then frame :: rest
    else { frame with entry } :: propagate rest (Frame.plug { frame with entry } focus)

variable {augment}

variable (augment) in
/-- Only the entries change. -/
theorem map_propagate {view : Frame ι α → β}
    (same : ∀ frame entry, view { frame with entry } = view frame)
    (frames : List (Frame ι α)) (focus : Tree ι α) :
    (propagate augment frames focus).map view = frames.map view := by
  induction frames generalizing focus with
  | nil => rfl
  | cons frame rest ih =>
    rw [propagate]
    split
    · rfl
    · rw [map_cons, ih, map_cons, same]

variable (augment) in
theorem map_shape_propagate (frames : List (Frame ι α)) (focus : Tree ι α) :
    (propagate augment frames focus).map Frame.shape = frames.map Frame.shape :=
  map_propagate augment (fun _ _ => rfl) frames focus

variable (augment) in
/-- Of the subtree at the place, only the entry of its root matters. -/
theorem propagate_congr (frames : List (Frame ι α)) {focus other : Tree ι α}
    (same : focus.rootEntry = other.rootEntry) :
    propagate augment frames focus = propagate augment frames other := by
  induction frames generalizing focus other with
  | nil => rfl
  | cons frame rest ih =>
    have entry : augment.computeAt frame.side focus frame.label frame.entry frame.sibling =
        augment.computeAt frame.side other frame.label frame.entry frame.sibling := by
      cases frame.side <;> simp only [Augment.computeAt, same]
    rw [propagate, propagate, entry]
    split
    · rfl
    · refine congrArg _ (ih ?_)
      rw [Frame.plug, Frame.plug, rootEntry_join, rootEntry_join]

theorem parts_propagate (keeps : augment.Keeps part) (frames : List (Frame ι α)) (focus : Tree ι α)
    :
    before part (propagate augment frames focus) = before part frames ∧
      after part (propagate augment frames focus) = after part frames := by
  induction frames generalizing focus with
  | nil => exact ⟨rfl, rfl⟩
  | cons frame rest ih =>
    rw [propagate]
    split
    · exact ⟨rfl, rfl⟩
    · simp only [before, after, ih, keeps.computeAt, and_self]

end Entries

/-! ### Taking a node out -/

/-- The way down to the leftmost node of a tree, and that node. -/
structure Spine (ι α : Type) where
  frames : List (Frame ι α)
  color : Color
  label : ι
  entry : α
  right : Tree ι α

/-- Walk down the left side of a tree. -/
def spine (frames : List (Frame ι α)) (color : Color) (label : ι) (entry : α) (right : Tree ι α) :
    Tree ι α → Spine ι α
  | .leaf => ⟨frames, color, label, entry, right⟩
  | .node nextColor next nextLabel nextEntry nextRight =>
    spine (⟨.left, color, label, entry, right⟩ :: frames) nextColor nextLabel nextEntry nextRight
      next

theorem fill_spine (frames : List (Frame ι α)) (color : Color) (label : ι) (entry : α)
    (left right : Tree ι α) :
    let bottom := spine frames color label entry right left
    fill bottom.frames (.node bottom.color .leaf bottom.label bottom.entry bottom.right) =
      fill frames (.node color left label entry right) := by
  induction left generalizing frames color label entry right with
  | leaf => rfl
  | node nextColor next nextLabel nextEntry nextRight ih =>
    exact ih _ _ _ _ _

/-- The leftmost node hangs on the left. -/
theorem frames_spine {frame : Frame ι α} (hangs : frame.side = .left) (frames : List (Frame ι α))
    (color : Color) (label : ι) (entry : α) (left right : Tree ι α) :
    ∃ last outer, (spine (frame :: frames) color label entry right left).frames = last :: outer ∧
      last.side = .left := by
  induction left generalizing frame frames color label entry right with
  | leaf => exact ⟨frame, frames, rfl, hangs⟩
  | node nextColor next nextLabel nextEntry nextRight ih =>
    exact ih rfl _ _ _ _ _

/-- The way to a node below the right child of another. -/
theorem fill_below {frames : List (Frame ι α)} {color nextColor : Color}
    {left next nextRight : Tree ι α} {label nextLabel : ι} {entry nextEntry : α} :
    let bottom := spine [] nextColor nextLabel nextEntry nextRight next
    fill (bottom.frames ++ ⟨.right, color, label, entry, left⟩ :: frames)
        (Tree.join .left bottom.color .leaf bottom.label bottom.entry bottom.right) =
      fill frames (.node color left label entry (.node nextColor next nextLabel nextEntry
        nextRight)) := by
  intro bottom
  rw [fill_append, join, fill_spine]
  rfl

theorem before_append (inner outer : List (Frame ι α)) :
    before part (inner ++ outer) = before part outer ++ before part inner := by
  induction inner with
  | nil => simp [before]
  | cons frame rest ih =>
    rw [cons_append, before, ih, before, append_assoc]

theorem after_append (inner outer : List (Frame ι α)) :
    after part (inner ++ outer) = after part inner ++ after part outer := by
  induction inner with
  | nil => simp [after]
  | cons frame rest ih =>
    rw [cons_append, after, ih, after, append_assoc]

theorem before_spine (frames : List (Frame ι α)) (color : Color) (label : ι)
    (entry : α) (left right : Tree ι α) :
    before part (spine frames color label entry right left).frames = before part frames := by
  induction left generalizing frames color label entry right with
  | leaf => rfl
  | node nextColor next nextLabel nextEntry nextRight ih =>
    rw [spine, ih, before, append_nil]

theorem isNone_rootEntry {tree : Tree ι α} : tree.rootEntry.isNone = true ↔ tree = .leaf := by
  cases tree <;> simp [rootEntry]

section Erase

variable [DecidableEq α] (augment : Augment ι α)

/-- What is left of a tree after a node has been unlinked: a place, the subtree there, and whether
that is one black node short. -/
structure Unlinked (ι α : Type) where
  frames : List (Frame ι α)
  short : Bool
  child : Tree ι α

/-- Unlink the node at a place. If it has two children, its successor takes its place, and what is
left is where the successor was. -/
def unlink (frames : List (Frame ι α)) (color : Color) (left : Tree ι α) (entry : α)
    (right : Tree ι α) : Unlinked ι α :=
  match left, right with
  | .leaf, .leaf => ⟨propagate augment frames .leaf, color = .black, .leaf⟩
  | .leaf, child => ⟨propagate augment frames (child.recolor color), false, child.recolor color⟩
  | child, .leaf => ⟨propagate augment frames (child.recolor color), false, child.recolor color⟩
  | left, .node nextColor next nextLabel nextEntry nextRight =>
    let bottom := spine [] nextColor nextLabel nextEntry nextRight next
    let child := bottom.right.recolor .black
    let lower := propagate augment bottom.frames child
    let upper := propagate augment
      (⟨.right, color, bottom.label, augment.copy entry bottom.entry, left⟩ :: frames)
      (fill lower child)
    ⟨lower ++ upper, bottom.color = .black ∧ bottom.right.rootEntry.isNone, child⟩

/-- Take out the node at a place. -/
def erase (frames : List (Frame ι α)) (color : Color) (left : Tree ι α) (entry : α)
    (right : Tree ι α) : Tree ι α :=
  let unlinked := unlink augment frames color left entry right
  settle augment unlinked.frames unlinked.short unlinked.child

variable {augment}

section

variable {frames : List (Frame ι α)} {color : Color} {left right : Tree ι α} {label : ι} {entry : α}
  (valid : (fill frames (.node color left label entry right)).Valid)

include valid

variable (augment) in
theorem unlink_spec :
    let unlinked := unlink augment frames color left entry right
    (unlinked.short = true → unlinked.child = .leaf ∧ Path unlinked.frames 1) ∧
      (unlinked.short = false → (fill unlinked.frames unlinked.child).Valid) := by
  cases left with
  | leaf =>
    have place : (fill frames (join .left color .leaf label entry right)).Valid := valid
    obtain ⟨short, enough, black⟩ := settled place
      (map_shape_propagate augment frames (right.recolor color))
    cases right with
    | leaf =>
      refine ⟨fun isShort => ⟨rfl, short ⟨of_decide_eq_true isShort, rfl⟩⟩, fun isEnough => ?_⟩
      exact enough fun ⟨isBlack, _⟩ => absurd isBlack (of_decide_eq_false isEnough)
    | node =>
      rw [black nofun] at enough ⊢
      exact ⟨nofun, fun _ => enough nofun⟩
  | node leftColor leftLeft leftLabel leftEntry leftRight =>
    cases right with
    | leaf =>
      have place : (fill frames (join .right color .leaf label entry
        (.node leftColor leftLeft leftLabel leftEntry leftRight))).Valid := valid
      obtain ⟨_, enough, black⟩ := settled place (map_shape_propagate augment frames
          ((node leftColor leftLeft leftLabel leftEntry leftRight).recolor color))
      rw [black nofun] at enough ⊢
      exact ⟨nofun, fun _ => enough nofun⟩
    | node nextColor next nextLabel nextEntry nextRight =>
      rw [← fill_below] at valid
      intro unlinked
      have same : unlinked.frames.map Frame.shape = ((spine [] nextColor nextLabel nextEntry
          nextRight next).frames ++ ⟨.right, color, label, entry,
            .node leftColor leftLeft leftLabel leftEntry leftRight⟩ :: frames).map Frame.shape := by
        simp only [unlinked, unlink, map_append, map_shape_propagate]
        rfl
      obtain ⟨short, enough, _⟩ := settled valid same
      have isShort : unlinked.short = true ↔ _ := decide_eq_true_iff
      rw [isNone_rootEntry] at isShort
      refine ⟨fun both => ⟨?_, short (isShort.mp both)⟩, fun not => enough ?_⟩
      · show recolor _ _ = _
        rw [(isShort.mp both).2]
        rfl
      · exact fun both => absurd (isShort.mpr both) (by simp [not])

theorem valid_erase :
    (erase augment frames color left entry right).Valid := by
  obtain ⟨isShort, isEnough⟩ := unlink_spec augment valid
  rw [erase, settle]
  split_ifs with short
  · obtain ⟨empty, path⟩ := isShort short
    rw [empty]
    exact valid_eraseFix path rfl trivial rfl
  · exact isEnough (Bool.eq_false_iff.mpr short)

end

/-- The node is gone, and the others are where they were. -/
theorem parts_erase (keeps : augment.Keeps part) (frames : List (Frame ι α)) (color : Color)
    (left : Tree ι α) (entry : α) (right : Tree ι α) :
    (erase augment frames color left entry right).parts part =
      before part frames ++ (left.parts part ++ right.parts part ++ after part frames) := by
  have settled (frames : List (Frame ι α)) (short : Bool) (child : Tree ι α) :
      (settle augment frames short child).parts part = (fill frames child).parts part := by
    unfold settle
    split
    · exact parts_eraseFix keeps frames child
    · rfl
  rw [erase, settled, parts_fill]
  cases left with
  | leaf =>
    cases right with
    | leaf | node => simp [unlink, parts_propagate keeps]
  | node leftColor leftLeft leftLabel leftEntry leftRight =>
    cases right with
    | leaf => simp [unlink, parts_propagate keeps]
    | node nextColor next nextLabel nextEntry nextRight =>
      have read := congrArg (parts part)
        (fill_spine [] nextColor nextLabel nextEntry next nextRight)
      simp only [parts_fill, before_spine, before, fill] at read
      simp only [unlink, before_append, after_append, parts_propagate keeps, before_spine, before,
        after, keeps.copy]
      simpa using congrArg (· ++ after part frames) read

end Erase

end RedBlack
