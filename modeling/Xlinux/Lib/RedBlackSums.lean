/-
This file is about red-black trees in which the entry of a node sums up its
subtree: it is a total over the labels there. Insertion and removal keep the
totals, since a rotation hands the total of the subtree to its new root and
computes the total of the old root again. A label may be exempt for a while, when
its entry has not been computed yet.
-/

import Xlinux.Lib.RedBlackErase

namespace RedBlack

open RedBlack.Tree List

variable {ι α : Type} {frames : List (Frame ι α)}

/-! ### Totals -/

/-- The total over labels, if there are any. -/
def totalOf (total : List ι → α) : List ι → Option α
  | [] => none
  | label :: labels => some (total (label :: labels))

/-- Entries are computed as totals over labels, except for labels that are exempt. -/
structure Augment.Totals (augment : Augment ι α) (exempt : ι → Prop) (total : List ι → α) :
    Prop where
  copy : ∀ old new, augment.copy old new = old
  compute : ∀ left label entry right, ¬exempt label →
    augment.compute (totalOf total left) label entry (totalOf total right) =
      total (left ++ label :: right)

/-- Every entry is the total over the subtree, except for labels that are exempt. -/
def Totaled (exempt : ι → Prop) (total : List ι → α) : Tree ι α → Prop
  | .leaf => True
  | .node _ left label entry right =>
    (¬exempt label → entry = total (left.labels ++ label :: right.labels)) ∧
      Totaled exempt total left ∧ Totaled exempt total right

/-- The label of the root, if there is one, is not exempt. -/
def RootCounts (exempt : ι → Prop) : Tree ι α → Prop
  | .leaf => True
  | .node _ _ label _ _ => ¬exempt label

section Labels

variable {β : Type} {frame : Frame ι α}

@[simp]
theorem labels_leaf : (leaf : Tree ι α).labels = [] :=
  rfl

@[simp]
theorem labels_node {color : Color} {left right : Tree ι α} {label : ι} {entry : α} :
    (node color left label entry right).labels = left.labels ++ label :: right.labels := by
  simp [labels, inorder]

variable {side : Side} {color : Color} {near far : Tree ι α} {label : ι} {entry : α}

theorem labels_join : (Tree.join side color near label entry far).labels =
    match side with
    | .left => near.labels ++ label :: far.labels
    | .right => far.labels ++ label :: near.labels := by
  cases side <;> exact labels_node

@[simp]
theorem labels_recolor {tree : Tree ι α} : (tree.recolor color).labels = tree.labels := by
  cases tree <;> rfl

/-- The labels before a place. -/
def labelsBefore (frames : List (Frame ι α)) : List ι := (before id frames).map Prod.fst

/-- The labels after a place. -/
def labelsAfter (frames : List (Frame ι α)) : List ι := (after id frames).map Prod.fst

theorem map_fst_parts (part : α → β) (tree : Tree ι α) :
    (tree.parts part).map Prod.fst = tree.labels := by
  simp only [parts, map_map]
  rfl

theorem labels_eq_of_parts {tree other : Tree ι α}
    (same : tree.parts (fun _ => ()) = other.parts fun _ => ()) : tree.labels = other.labels := by
  rw [← map_fst_parts fun _ => (), same, map_fst_parts]

/-- The labels are kept. -/
theorem Augment.keeps_labels (augment : Augment ι α) : augment.Keeps fun _ => () :=
  ⟨fun _ _ => rfl, fun _ _ _ _ => rfl⟩

theorem labels_fill (frames : List (Frame ι α)) (tree : Tree ι α) :
    (fill frames tree).labels = labelsBefore frames ++ (tree.labels ++ labelsAfter frames) := by
  rw [labels, ← parts_id, parts_fill, map_append, map_append, parts_id]
  rfl

theorem labels_fill_leaf (frames : List (Frame ι α)) :
    (fill frames .leaf).labels = labelsBefore frames ++ labelsAfter frames :=
  labels_fill ..

theorem labels_fill_node {frames : List (Frame ι α)} {color : Color} {left right : Tree ι α}
    {label : ι} {entry : α} : (fill frames (.node color left label entry right)).labels =
      (labelsBefore frames ++ left.labels) ++ label :: (right.labels ++ labelsAfter frames) := by
  rw [labels_fill]
  simp

theorem labelsBefore_cons (frame : Frame ι α) (rest : List (Frame ι α)) :
    labelsBefore (frame :: rest) = labelsBefore rest ++
      match frame.side with
      | .left => []
      | .right => frame.sibling.labels ++ [frame.label] := by
  rw [labelsBefore, before]
  cases frame.side <;> simp [labelsBefore, parts_id, labels]

theorem labelsAfter_cons (frame : Frame ι α) (rest : List (Frame ι α)) :
    labelsAfter (frame :: rest) = (match frame.side with
      | .left => frame.label :: frame.sibling.labels
      | .right => []) ++ labelsAfter rest := by
  rw [labelsAfter, after]
  cases frame.side <;> simp [labelsAfter, parts_id, labels]

theorem map_fst_before (part : α → β) (frames : List (Frame ι α)) :
    (before part frames).map Prod.fst = labelsBefore frames := by
  induction frames with
  | nil => rfl
  | cons frame rest ih =>
    rw [labelsBefore_cons, before, map_append, ih]
    cases frame.side <;> simp [map_fst_parts]

theorem map_fst_after (part : α → β) (frames : List (Frame ι α)) :
    (after part frames).map Prod.fst = labelsAfter frames := by
  induction frames with
  | nil => rfl
  | cons frame rest ih =>
    rw [labelsAfter_cons, after, map_append, ih]
    cases frame.side <;> simp [map_fst_parts]

/-- Every label of a tree is at a place. -/
theorem exists_fill_of_mem_labels {tree : Tree ι α} {label : ι} (member : label ∈ tree.labels) :
    ∃ frames color left entry right, tree = fill frames (.node color left label entry right) := by
  obtain ⟨⟨label, entry⟩, found, rfl⟩ := mem_map.mp member
  obtain ⟨frames, color, left, right, place⟩ := exists_fill_of_mem found
  exact ⟨frames, color, left, entry, right, place⟩

/-- Labels around a place are before or after it. -/
theorem mem_labels_of_frame {label : ι} (inside : frame ∈ frames)
    (member : label = frame.label ∨ label ∈ frame.sibling.labels) :
    label ∈ labelsBefore frames ∨ label ∈ labelsAfter frames := by
  induction frames with
  | nil => cases inside
  | cons first rest ih =>
    rw [labelsBefore_cons, labelsAfter_cons, mem_append, mem_append]
    rcases mem_cons.mp inside with rfl | later
    · cases frame.side <;> simp [or_comm, member]
    · exact (ih later).imp .inl .inr

/-- The label of a frame is after the place below it on the left, and before that on the right. -/
theorem label_mem_of_frame (inside : frame ∈ frames) : match frame.side with
    | .left => frame.label ∈ labelsAfter frames
    | .right => frame.label ∈ labelsBefore frames := by
  induction frames with
  | nil => cases inside
  | cons first rest ih =>
    rw [labelsBefore_cons, labelsAfter_cons]
    rcases mem_cons.mp inside with rfl | later
    · cases frame.side <;> simp
    · have member := ih later
      split at member <;> simp [member]

/-- A label at a place is not around it. -/
theorem not_mem_around {left right : Tree ι α} {color : Color} {label : ι} {entry : α}
    (apart : (fill frames (.node color left label entry right)).labels.Nodup) :
    (∀ frame ∈ frames, ¬frame.label = label ∧ ∀ other ∈ frame.sibling.labels, ¬other = label) ∧
      (∀ other ∈ left.labels, ¬other = label) ∧ ∀ other ∈ right.labels, ¬other = label := by
  rw [labels_fill_node, nodup_middle, nodup_cons] at apart
  simp only [mem_append, not_or] at apart
  obtain ⟨⟨⟨notBefore, notLeft⟩, notRight, notAfter⟩, _⟩ := apart
  have outside : ∀ frame ∈ frames, ∀ other, other = frame.label ∨ other ∈ frame.sibling.labels →
      ¬other = label := by
    rintro frame inside other member rfl
    exact (mem_labels_of_frame inside member).elim notBefore notAfter
  refine ⟨fun frame inside => ⟨outside frame inside _ (.inl rfl),
    fun other member => outside frame inside other (.inr member)⟩, ?_, ?_⟩
  · rintro other member rfl
    exact notLeft member
  · rintro other member rfl
    exact notRight member

end Labels

section Total

variable {exempt : ι → Prop} {total : List ι → α} {augment : Augment ι α} {side : Side}
  {color : Color} {near far tree : Tree ι α} {label : ι} {entry : α}

theorem totaled_join : Totaled exempt total (Tree.join side color near label entry far) ↔
    (¬exempt label → entry = total (Tree.join side color near label entry far).labels) ∧
      Totaled exempt total near ∧ Totaled exempt total far := by
  rw [labels_join]
  cases side with
  | left => exact Iff.rfl
  | right => exact and_congr_right fun _ => and_comm

theorem Totaled.recolor (totaled : Totaled exempt total tree) :
    Totaled exempt total (tree.recolor color) := by
  cases tree with
  | leaf => trivial
  | node => exact totaled

theorem RootCounts.recolor (counts : RootCounts exempt tree) :
    RootCounts exempt (tree.recolor color) := by
  cases tree with
  | leaf => trivial
  | node => exact counts

theorem rootCounts_join : RootCounts exempt (Tree.join side color near label entry far) ↔
    ¬exempt label := by
  cases side <;> exact Iff.rfl

theorem Totaled.rootEntry_eq (totaled : Totaled exempt total tree)
    (counts : RootCounts exempt tree) : tree.rootEntry = totalOf total tree.labels := by
  cases tree with
  | leaf => rfl
  | node color left label entry right =>
    rw [totaled.1 counts, labels_node]
    cases left.labels <;> rfl

/-- An entry computed again is the total. -/
theorem Augment.Totals.computeAt_eq (totals : augment.Totals exempt total)
    (nearTotaled : Totaled exempt total near) (farTotaled : Totaled exempt total far)
    (nearCounts : RootCounts exempt near) (farCounts : RootCounts exempt far)
    (counts : ¬exempt label) {other : α} :
    augment.computeAt side near label entry far =
      total (Tree.join side color near label other far).labels := by
  rw [labels_join]
  cases side <;>
    simp only [computeAt, nearTotaled.rootEntry_eq nearCounts, farTotaled.rootEntry_eq farCounts,
      totals.compute _ _ _ _ counts]

theorem Augment.Totals.totaled_join (totals : augment.Totals exempt total)
    (nearTotaled : Totaled exempt total near) (farTotaled : Totaled exempt total far)
    (nearCounts : RootCounts exempt near) (farCounts : RootCounts exempt far)
    (counts : ¬exempt label) :
    Totaled exempt total (augment.join side color near label entry far) := by
  refine RedBlack.totaled_join.mpr ⟨fun _ => ?_, nearTotaled, farTotaled⟩
  exact totals.computeAt_eq nearTotaled farTotaled nearCounts farCounts counts

theorem totaled_of_fill (totaled : Totaled exempt total (fill frames tree)) :
    Totaled exempt total tree := by
  induction frames generalizing tree with
  | nil => exact totaled
  | cons frame rest ih =>
    exact (totaled_join.mp (ih totaled)).2.1

/-- A subtree may be replaced by another that counts the same. -/
theorem totaled_fill_of_counts {other : Tree ι α} (same : ∀ before after,
      total (before ++ (tree.labels ++ after)) = total (before ++ (other.labels ++ after)))
    (totaled : Totaled exempt total (fill frames tree)) (next : Totaled exempt total other) :
    Totaled exempt total (fill frames other) := by
  induction frames generalizing tree other with
  | nil => exact next
  | cons frame rest ih =>
    have labels : ∀ before after, total (before ++ ((frame.plug tree).labels ++ after)) =
        total (before ++ ((frame.plug other).labels ++ after)) := by
      intro before after
      rw [Frame.plug, Frame.plug, labels_join, labels_join]
      cases frame.side with
      | left => simpa using same before (frame.label :: (frame.sibling.labels ++ after))
      | right => simpa using same (before ++ (frame.sibling.labels ++ [frame.label])) after
    have whole : total (frame.plug tree).labels = total (frame.plug other).labels := by
      simpa using labels [] []
    obtain ⟨entry, _, sibling⟩ := totaled_join.mp (totaled_of_fill totaled)
    exact ih labels totaled
      (totaled_join.mpr ⟨fun counts => (entry counts).trans whole, next, sibling⟩)

/-- A subtree may be replaced by another with the same labels. -/
theorem totaled_fill_congr {other : Tree ι α} (same : tree.labels = other.labels)
    (totaled : Totaled exempt total (fill frames tree)) (next : Totaled exempt total other) :
    Totaled exempt total (fill frames other) :=
  totaled_fill_of_counts (fun _ _ => by rw [same]) totaled next

end Total

/-! ### Insertion -/

section Insert

variable {exempt : ι → Prop} {total : List ι → α} {augment : Augment ι α}
  {gparent parent : Frame ι α} {focus : Tree ι α}

variable (augment) in
theorem labels_insertRotate (gparent parent : Frame ι α) (focus : Tree ι α) :
    (insertRotate augment gparent parent focus).labels =
      (gparent.plug (parent.plug focus)).labels :=
  labels_eq_of_parts (parts_insertRotate augment.keeps_labels gparent parent focus)

theorem totaled_insertRotate (totals : augment.Totals exempt total)
    (totaled : Totaled exempt total (gparent.plug (parent.plug focus)))
    (gparentCounts : ¬exempt gparent.label) (parentCounts : ¬exempt parent.label)
    (uncle : RootCounts exempt gparent.sibling) (sibling : RootCounts exempt parent.sibling)
    (children : ∀ side, RootCounts exempt (focus.child side)) :
    Totaled exempt total (insertRotate augment gparent parent focus) := by
  have labels := labels_insertRotate augment gparent parent focus
  obtain ⟨entry, inner, uncleTotaled⟩ := totaled_join.mp totaled
  obtain ⟨_, focusTotaled, siblingTotaled⟩ := totaled_join.mp inner
  have whole := entry gparentCounts
  by_cases same : parent.side = gparent.side
  · rw [insertRotate_outer same] at labels ⊢
    refine totaled_join.mpr ⟨fun _ => ?_, focusTotaled, ?_⟩
    · rw [labels, totals.copy]
      exact whole
    · exact totals.totaled_join siblingTotaled.recolor uncleTotaled sibling.recolor uncle
        gparentCounts
  · by_cases nonempty : focus = .leaf
    · subst nonempty
      simp only [insertRotate, if_neg same]
      exact totaled
    · obtain ⟨_, label, _, focusWhole⟩ := eq_join_of_ne_leaf gparent.side nonempty
      have nearCounts := children gparent.side
      have farCounts := children gparent.side.other
      generalize focus.child gparent.side = near,
        focus.child gparent.side.other = far at focusWhole nearCounts farCounts
      subst focusWhole
      obtain ⟨_, nearTotaled, farTotaled⟩ := totaled_join.mp focusTotaled
      rw [insertRotate_inner same] at labels ⊢
      refine totaled_join.mpr ⟨fun _ => ?_, ?_, ?_⟩
      · rw [labels, totals.copy]
        exact whole
      · exact totals.totaled_join siblingTotaled nearTotaled.recolor sibling nearCounts.recolor
          parentCounts
      · exact totals.totaled_join farTotaled.recolor uncleTotaled farCounts.recolor uncle
          gparentCounts

variable (augment) in
theorem labels_insertFix (frames : List (Frame ι α)) (focus : Tree ι α) :
    (insertFix augment frames focus).labels = (fill frames focus).labels :=
  labels_eq_of_parts (parts_insertFix augment.keeps_labels frames focus)

theorem labels_insertFix_leaf (frames : List (Frame ι α)) (color : Color) (label : ι) (entry : α) :
    (insertFix augment frames (.node color .leaf label entry .leaf)).labels =
      labelsBefore frames ++ label :: labelsAfter frames := by
  rw [labels_insertFix, labels_fill_node]
  simp

/-- Insertion keeps the totals. The children of the subtree at the place must count, but its root
need not. -/
theorem totaled_insertFix (totals : augment.Totals exempt total)
    (totaled : Totaled exempt total (fill frames focus))
    (counts : ∀ frame ∈ frames, ¬exempt frame.label ∧ RootCounts exempt frame.sibling)
    (children : ∀ side, RootCounts exempt (focus.child side)) :
    Totaled exempt total (insertFix augment frames focus) := by
  fun_induction insertFix augment frames focus with
  | case1 focus => exact Totaled.recolor totaled
  | case2 parent focus => exact totaled
  | case3 parent gparent rest focus black => exact totaled
  | case4 parent gparent rest focus parentRed uncleRed ih =>
    obtain ⟨parentCounts, parentSibling⟩ := counts parent (by simp)
    obtain ⟨gparentCounts, uncle⟩ := counts gparent (by simp)
    have place : Totaled exempt total (fill rest (gparent.plug (parent.plug focus))) := totaled
    refine ih ?_ (fun frame member => counts frame (by simp [member])) ?_
    · obtain ⟨entry, below, uncleTotaled⟩ := totaled_join.mp (totaled_of_fill place)
      obtain ⟨parentEntry, focusTotaled, siblingTotaled⟩ := totaled_join.mp below
      refine totaled_fill_congr ?_ place (totaled_join.mpr ⟨fun counts => ?_,
        totaled_join.mpr ⟨fun counts => ?_, focusTotaled, siblingTotaled⟩, uncleTotaled.recolor⟩)
      · simp only [Frame.plug, labels_join, labels_recolor]
      · rw [entry counts]
        simp only [Frame.plug, labels_join, labels_recolor]
      · rw [parentEntry counts, labels_join, labels_join]
    · intro side
      by_cases same : side = gparent.side
      · rw [same, child_join]
        exact rootCounts_join.mpr parentCounts
      · rw [Side.eq_other_of_ne same]
        cases gparent.side <;> exact uncle.recolor
  | case5 parent gparent rest focus parentRed uncleBlack =>
    obtain ⟨parentCounts, parentSibling⟩ := counts parent (by simp)
    obtain ⟨gparentCounts, uncle⟩ := counts gparent (by simp)
    have place : Totaled exempt total (fill rest (gparent.plug (parent.plug focus))) := totaled
    refine totaled_fill_congr (labels_insertRotate augment gparent parent focus).symm place ?_
    exact totaled_insertRotate totals (totaled_of_fill place) gparentCounts parentCounts uncle
      parentSibling children

end Insert

/-! ### Removal -/

section Erase

variable {total : List ι → α} {augment : Augment ι α} {parent : Frame ι α} {focus : Tree ι α}

/-- Nothing is exempt. -/
abbrev Summed (total : List ι → α) (tree : Tree ι α) : Prop := Totaled (fun _ => False) total tree

theorem rootCounts_all (tree : Tree ι α) : RootCounts (fun _ => False) tree := by
  cases tree with
  | leaf => trivial
  | node => exact not_false

theorem summed_join {side : Side} {color : Color} {near far : Tree ι α} {label : ι} {entry : α} :
    Summed total (Tree.join side color near label entry far) ↔
      entry = total (Tree.join side color near label entry far).labels ∧
        Summed total near ∧ Summed total far := by
  show Totaled _ _ _ ↔ _
  rw [totaled_join, not_false_iff, forall_true_left]

theorem Augment.Totals.summed_join (totals : augment.Totals (fun _ => False) total) {side : Side}
    {color : Color} {near far : Tree ι α} {label : ι} {entry : α} (nearSum : Summed total near)
    (farSum : Summed total far) : Summed total (augment.join side color near label entry far) :=
  totals.totaled_join nearSum farSum (rootCounts_all _) (rootCounts_all _) not_false

variable (augment) in
theorem labels_eraseBalance (parent : Frame ι α) (focus : Tree ι α) :
    (eraseBalance augment parent focus).1.labels = (parent.plug focus).labels :=
  labels_eq_of_parts (parts_eraseBalance augment.keeps_labels parent focus)

theorem summed_eraseBalance (totals : augment.Totals (fun _ => False) total)
    (sum : Summed total (parent.plug focus)) :
    Summed total (eraseBalance augment parent focus).1 := by
  have labels := labels_eraseBalance augment parent focus
  obtain ⟨entry, focusSum, siblingSum⟩ := summed_join.mp sum
  have top : parent.entry = total (eraseBalance augment parent focus).1.labels := labels ▸ entry
  cases eraseCase parent with
  | empty none => simpa [eraseBalance, none] using sum
  | far whole red =>
    rw [whole] at siblingSum
    obtain ⟨_, nearSum, farSum⟩ := summed_join.mp siblingSum
    rw [eraseBalance_far whole red] at top ⊢
    exact summed_join.mpr ⟨(totals.copy ..).trans top, totals.summed_join focusSum nearSum,
      farSum.recolor⟩
  | near whole black =>
    rw [whole] at siblingSum
    obtain ⟨_, nearSum, farSum⟩ := summed_join.mp siblingSum
    obtain ⟨_, innerSum, outerSum⟩ := summed_join.mp nearSum
    rw [eraseBalance_near whole black] at top ⊢
    exact summed_join.mpr ⟨(totals.copy ..).trans top, totals.summed_join focusSum innerSum,
      totals.summed_join outerSum.recolor farSum⟩
  | flip whole nearBlack farBlack =>
    rw [eraseBalance_flip whole nearBlack farBlack] at top ⊢
    exact summed_join.mpr ⟨top, focusSum, siblingSum.recolor⟩

theorem summed_eraseFix (totals : augment.Totals (fun _ => False) total)
    (sum : Summed total (fill frames focus)) : Summed total (eraseFix augment frames focus) := by
  induction frames generalizing focus with
  | nil => exact sum
  | cons parent rest ih =>
    have place : Summed total (fill rest (parent.plug focus)) := sum
    have parentSum : Summed total (parent.plug focus) := totaled_of_fill place
    rw [eraseFix]
    split
    case isTrue siblingRed =>
      obtain ⟨entry, focusSum, siblingSum⟩ := summed_join.mp parentSum
      obtain ⟨near, label, siblingEntry, far, whole⟩ := exists_red_join parent.side siblingRed
      rw [whole] at siblingSum
      obtain ⟨_, nearSum, farSum⟩ := summed_join.mp siblingSum
      rw [eraseRotate_join whole]
      -- the red parent is below its old sibling, which has the old total
      have lowerSum : Summed total (Frame.plug ⟨parent.side, .red, parent.label,
          augment.computeAt parent.side focus parent.label parent.entry (near.recolor .black),
          near.recolor .black⟩ focus) := totals.summed_join focusSum nearSum.recolor
      have labels : (parent.plug focus).labels = (Frame.plug ⟨parent.side, parent.color, label,
          augment.copy parent.entry siblingEntry, far⟩ (eraseBalance augment ⟨parent.side, .red,
            parent.label, augment.computeAt parent.side focus parent.label parent.entry
              (near.recolor .black), near.recolor .black⟩ focus).1).labels := by
        rw [Frame.plug, Frame.plug, labels_join, labels_join, labels_eraseBalance, Frame.plug,
          labels_join, whole, labels_join]
        cases parent.side <;> simp
      show Summed total (fill rest (Frame.plug _ _))
      refine totaled_fill_congr labels place
        (summed_join.mpr ⟨?_, summed_eraseBalance totals lowerSum, farSum⟩)
      exact (totals.copy _ _).trans (entry.trans (congrArg total labels))
    case isFalse =>
      have balanced : Summed total (fill rest (eraseBalance augment parent focus).1) :=
        totaled_fill_congr (labels_eraseBalance augment parent focus).symm place
          (summed_eraseBalance totals parentSum)
      split
      · exact ih balanced
      · exact balanced

end Erase

/-! ### Entries that are computed on the way up -/

section Propagate

variable {total : List ι → α} {augment : Augment ι α} {focus : Tree ι α}
  {frames : List (Frame ι α)} (totals : augment.Totals (fun _ => False) total)

/-- The entry of a node, computed from those on its two sides. -/
def Augment.computeWith (augment : Augment ι α) (side : Side) (near : Option α) (label : ι)
    (entry : α) (far : Option α) : α :=
  match side with
  | .left => augment.compute near label entry far
  | .right => augment.compute far label entry near

theorem computeAt_eq_computeWith (side : Side) (near : Tree ι α) (label : ι) (entry : α)
    (far : Tree ι α) : augment.computeAt side near label entry far =
      augment.computeWith side near.rootEntry label entry far.rootEntry := by
  cases side <;> rfl

/-- The entries around a place are computed from the one that is there. -/
def Settled (augment : Augment ι α) (total : List ι → α) : Option α → List (Frame ι α) → Prop
  | _, [] => True
  | below, frame :: rest =>
    augment.computeWith frame.side below frame.label frame.entry frame.sibling.rootEntry =
        frame.entry ∧
      Summed total frame.sibling ∧ Settled augment total (some frame.entry) rest

/-- Above the first one, the entries around a place are computed from the one below. -/
def Loose (augment : Augment ι α) (total : List ι → α) : List (Frame ι α) → Prop
  | [] => True
  | frame :: rest => Summed total frame.sibling ∧ Settled augment total (some frame.entry) rest

theorem Settled.loose {below : Option α} (settled : Settled augment total below frames) :
    Loose augment total frames := by
  cases frames with
  | nil => trivial
  | cons frame rest => exact settled.2

include totals

theorem summed_plug_iff {frame : Frame ι α} :
    Summed total (frame.plug focus) ↔
      augment.computeWith frame.side focus.rootEntry frame.label frame.entry
          frame.sibling.rootEntry = frame.entry ∧
        Summed total focus ∧ Summed total frame.sibling := by
  rw [Frame.plug, summed_join]
  refine and_congr_left fun both => ?_
  rw [← computeAt_eq_computeWith, totals.computeAt_eq both.1 both.2 (rootCounts_all _)
    (rootCounts_all _) not_false]
  exact eq_comm

theorem summed_fill_iff :
    Summed total (fill frames focus) ↔
      Summed total focus ∧ Settled augment total focus.rootEntry frames := by
  induction frames generalizing focus with
  | nil => exact (and_iff_left trivial).symm
  | cons frame rest ih =>
    have entry : (frame.plug focus).rootEntry = some frame.entry := rootEntry_join
    rw [fill, ih, summed_plug_iff totals, Settled, entry]
    tauto

/-- Computing entries on the way up until one does not change makes all entries totals. -/
theorem summed_propagate [DecidableEq α] (loose : Loose augment total frames)
    (sum : Summed total focus) : Summed total (fill (propagate augment frames focus) focus) := by
  induction frames generalizing focus with
  | nil => exact sum
  | cons frame rest ih =>
    obtain ⟨sibling, above⟩ := loose
    rw [propagate]
    split_ifs with same
    · exact (summed_fill_iff totals).mpr ⟨sum, same, sibling, above⟩
    · exact ih above.loose (totals.summed_join sum sibling)

/-- A node whose place is left to a child. -/
theorem summed_propagate_child [DecidableEq α] {tree : Tree ι α}
    (sum : Summed total (fill frames tree)) (child : Summed total focus) :
    Summed total (fill (propagate augment frames focus) focus) :=
  summed_propagate totals ((summed_fill_iff totals).mp sum).2.loose child

theorem summed_unlink [DecidableEq α] {color : Color} {left right : Tree ι α} {label : ι}
    {entry : α} (sum : Summed total (fill frames (.node color left label entry right))) :
    Summed total (fill (unlink augment frames color left entry right).frames
      (unlink augment frames color left entry right).child) := by
  obtain ⟨_, leftSum, rightSum⟩ := ((summed_fill_iff totals).mp sum).1
  cases left with
  | leaf =>
    cases right with
    | leaf => exact summed_propagate_child totals sum trivial
    | node => exact summed_propagate_child totals sum (Totaled.recolor rightSum)
  | node leftColor leftLeft leftLabel leftEntry leftRight =>
    cases right with
    | leaf => exact summed_propagate_child totals sum (Totaled.recolor leftSum)
    | node nextColor next nextLabel nextEntry nextRight =>
      rw [← fill_below, fill_append] at sum
      obtain ⟨below, settled⟩ := (summed_fill_iff totals).mp sum
      obtain ⟨bottom, lower⟩ := (summed_fill_iff totals).mp below
      obtain ⟨_, _, childSum⟩ := summed_join.mp bottom
      have childBlack : Summed total (recolor .black _) := Totaled.recolor childSum
      have lowerSum := summed_propagate totals lower.loose childBlack
      obtain ⟨siblingSum, _⟩ := settled.loose
      show Summed total (fill (propagate augment _ _ ++ propagate augment _ _) _)
      rw [fill_append]
      refine summed_propagate totals ⟨siblingSum, ?_⟩ lowerSum
      rwa [totals.copy]

omit totals in
variable (augment) in
theorem labels_erase [DecidableEq α] (frames : List (Frame ι α)) (color : Color)
    (left : Tree ι α) (entry : α) (right : Tree ι α) :
    (erase augment frames color left entry right).labels =
      labelsBefore frames ++ (left.labels ++ right.labels ++ labelsAfter frames) := by
  rw [← map_fst_parts fun _ => (), parts_erase augment.keeps_labels]
  simp only [map_append, map_fst_before, map_fst_after, map_fst_parts]

/-- Taking a node out keeps the totals. -/
theorem summed_erase [DecidableEq α] {color : Color} {left right : Tree ι α} {label : ι} {entry : α}
    (sum : Summed total (fill frames (.node color left label entry right))) :
    Summed total (erase augment frames color left entry right) := by
  rw [erase, settle]
  split
  · exact summed_eraseFix totals (summed_unlink totals sum)
  · exact summed_unlink totals sum

end Propagate

end RedBlack
