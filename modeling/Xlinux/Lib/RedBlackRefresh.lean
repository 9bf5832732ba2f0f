/-
This file is about bringing entries of red-black trees up to date: the entry of
a node is computed again, and then those above it as long as they change. That
is how totals are restored after what a node counts has changed, and after a node
was linked before its entry was known.
-/

import Xlinux.Lib.RedBlackSums

namespace RedBlack

open RedBlack.Tree List

variable {ι α : Type} {total : List ι → α} {augment : Augment ι α} {frames : List (Frame ι α)}

/-! ### An entry computed again -/

section Refresh

variable [DecidableEq α] {color : Color} {left right : Tree ι α} {label : ι} {entry : α}

variable (augment) in
/-- Compute the entry of a node and those above it again. -/
def refresh (frames : List (Frame ι α)) (color : Color) (left : Tree ι α) (label : ι) (entry : α)
    (right : Tree ι α) : Tree ι α :=
  fill (propagate augment (⟨.left, color, label, entry, right⟩ :: frames) left) left

theorem summed_refresh (totals : augment.Totals (fun _ => False) total)
    (leftSum : Summed total left) (rightSum : Summed total right)
    (settled : Settled augment total (some entry) frames) :
    Summed total (refresh augment frames color left label entry right) :=
  summed_propagate totals ⟨rightSum, settled⟩ leftSum

/-- If the entry changes, nothing need be known about the one below the place. -/
theorem summed_refresh_of_ne (totals : augment.Totals (fun _ => False) total)
    (leftSum : Summed total left) (rightSum : Summed total right)
    (changes : total (left.labels ++ label :: right.labels) ≠ entry)
    (loose : Loose augment total frames) :
    Summed total (refresh augment frames color left label entry right) := by
  have computed : augment.computeAt .left left label entry right =
      total (left.labels ++ label :: right.labels) := by
    have join : (join .left color left label entry right).labels =
        left.labels ++ label :: right.labels := labels_node
    rw [← join]
    exact totals.computeAt_eq leftSum rightSum (rootCounts_all _) (rootCounts_all _) not_false
  rw [refresh, propagate, if_neg (computed.trans_ne changes)]
  exact summed_propagate totals loose (totals.summed_join leftSum rightSum)

variable (augment) in
theorem labels_propagate (frames : List (Frame ι α)) (tree : Tree ι α) :
    (fill (propagate augment frames tree) tree).labels = (fill frames tree).labels := by
  refine labels_eq_of_parts ?_
  obtain ⟨before, after⟩ := parts_propagate augment.keeps_labels frames tree
  rw [parts_fill, parts_fill, before, after]

theorem labels_refresh : (refresh augment frames color left label entry right).labels =
    (fill frames (.node color left label entry right)).labels :=
  labels_propagate ..

omit [DecidableEq α] in
/-- A red-black tree with another entry. -/
theorem valid_fill_entry (valid : (fill frames (.node color left label entry right)).Valid)
    (next : α) : (fill frames (.node color left label next right)).Valid := by
  obtain ⟨height, path, noRedRed, tall, allowed⟩ := valid_fill_iff.mp valid
  have allows : (node color left label next right).isRed = true → AllowsRed frames := by
    cases color with
    | red => exact allowed
    | black => nofun
  exact valid_fill_iff.mpr ⟨height, path, noRedRed, tall, allows⟩

theorem valid_refresh (valid : (fill frames (.node color left label entry right)).Valid) :
    (refresh augment frames color left label entry right).Valid := by
  rw [refresh, valid_fill_congr (map_shape_propagate ..)]
  exact valid

end Refresh

/-! ### Frames without their entries -/

section Bare

/-- A frame without its entry. -/
def Frame.bare (frame : Frame ι α) : Side × Color × ι × Tree ι α :=
  (frame.side, frame.color, frame.label, frame.sibling)

variable {other : List (Frame ι α)}

variable (augment) in
theorem map_bare_propagate [DecidableEq α] (frames : List (Frame ι α)) (focus : Tree ι α) :
    (propagate augment frames focus).map Frame.bare = frames.map Frame.bare :=
  map_propagate augment (fun _ _ => rfl) frames focus

theorem map_shape_of_bare (same : frames.map Frame.bare = other.map Frame.bare) :
    frames.map Frame.shape = other.map Frame.shape := by
  have shapes := congrArg (map fun bare => (bare.2.1, bare.2.2.2)) same
  rwa [map_map, map_map] at shapes

theorem labels_of_bare (same : frames.map Frame.bare = other.map Frame.bare) :
    labelsBefore frames = labelsBefore other ∧ labelsAfter frames = labelsAfter other := by
  induction frames generalizing other with
  | nil =>
    rw [map_eq_nil_iff.mp same.symm]
    exact ⟨rfl, rfl⟩
  | cons frame rest ih =>
    cases other with
    | nil => cases same
    | cons first others =>
      rw [map_cons, map_cons, cons.injEq, Frame.bare, Frame.bare] at same
      obtain ⟨⟨side, -, label, sibling⟩, rest⟩ :=
        same.imp_left (by simp only [Prod.mk.injEq]; exact id)
      obtain ⟨before, after⟩ := ih rest
      rw [labelsBefore_cons, labelsBefore_cons, labelsAfter_cons, labelsAfter_cons, before,
        after, side, label, sibling]
      exact ⟨rfl, rfl⟩

/-- The first label after a place is that of the innermost frame on whose left the place is. -/
theorem exists_frame_of_labelsAfter {next : ι} {later : List ι}
    (first : labelsAfter frames = next :: later) :
    ∃ inner color entry sibling outer, frames = inner ++ ⟨.left, color, next, entry, sibling⟩ ::
      outer := by
  induction frames with
  | nil => cases first
  | cons frame rest ih =>
    obtain ⟨side, color, label, entry, sibling⟩ := frame
    cases side with
    | left =>
      cases first
      exact ⟨[], color, entry, sibling, rest, rfl⟩
    | right =>
      obtain ⟨inner, color', entry', sibling', outer, same⟩ := ih first
      exact ⟨⟨.right, color, label, entry, sibling⟩ :: inner, color', entry', sibling', outer,
        congrArg _ same⟩

end Bare

/-! ### Exempt labels -/

section Exempt

variable {exempt : ι → Prop} {counted : List ι → α} {tree : Tree ι α}

theorem totaled_iff_summed
    (agree : ∀ labels, (∀ label ∈ labels, ¬exempt label) → counted labels = total labels)
    (none : ∀ label ∈ tree.labels, ¬exempt label) :
    Totaled exempt counted tree ↔ Summed total tree := by
  induction tree with
  | leaf => exact Iff.rfl
  | node color left label entry right leftSum rightSum =>
    rw [labels_node] at none
    have here : ¬exempt label := none label (by simp)
    rw [Totaled, agree _ none, leftSum fun label member => none label (by simp [member]),
      rightSum fun label member => none label (by simp [member])]
    exact and_congr_left fun _ => ⟨fun entry _ => entry here, fun entry _ => entry not_false⟩

section

variable
  (none : ∀ frame ∈ frames, ¬exempt frame.label ∧ ∀ label ∈ frame.sibling.labels, ¬exempt label)

include none

/-- Around a place at which the root counts. -/
theorem settled_of_totaled (totals : augment.Totals exempt counted)
    (agree : ∀ labels, (∀ label ∈ labels, ¬exempt label) → counted labels = total labels)
    (counts : RootCounts exempt tree) (totaled : Totaled exempt counted (fill frames tree)) :
    Settled augment total tree.rootEntry frames := by
  induction frames generalizing tree with
  | nil => trivial
  | cons frame rest ih =>
    obtain ⟨here, above⟩ := forall_mem_cons.mp none
    obtain ⟨entry, below, sibling⟩ := totaled_join.mp (totaled_of_fill totaled :
      Totaled exempt counted (frame.plug tree))
    have root : RootCounts exempt frame.sibling := by
      cases siblingEq : frame.sibling with
      | leaf => trivial
      | node _ _ label _ _ => exact here.2 label (by simp [siblingEq])
    refine ⟨?_, (totaled_iff_summed agree here.2).mp sibling, ?_⟩
    · rw [← computeAt_eq_computeWith, totals.computeAt_eq below sibling counts root here.1]
      exact (entry here.1).symm
    · have next := ih above (rootCounts_join.mpr here.1) totaled
      rwa [rootEntry_join] at next

/-- Around a place at which the root does not count. -/
theorem loose_of_totaled (totals : augment.Totals exempt counted)
    (agree : ∀ labels, (∀ label ∈ labels, ¬exempt label) → counted labels = total labels)
    (totaled : Totaled exempt counted (fill frames tree)) : Loose augment total frames := by
  cases frames with
  | nil => trivial
  | cons frame rest =>
    obtain ⟨here, above⟩ := forall_mem_cons.mp none
    have plugged : Totaled exempt counted (fill rest (frame.plug tree)) := totaled
    have settled := settled_of_totaled above totals agree (rootCounts_join.mpr here.1) plugged
    rw [rootEntry_join] at settled
    exact ⟨(totaled_iff_summed agree here.2).mp
      (totaled_join.mp (totaled_of_fill plugged)).2.2, settled⟩

/-- Around a place whose total is known, whatever the entry there is. -/
theorem settled_total_of_totaled (totals : augment.Totals (fun _ => False) total)
    (totaled : Totaled exempt total (fill frames tree)) :
    Settled augment total (totalOf total tree.labels) frames := by
  have totalsExempt : augment.Totals exempt total :=
    ⟨totals.copy, fun left label entry right _ => totals.compute left label entry right not_false⟩
  have loose := loose_of_totaled none totalsExempt (fun _ _ => rfl) totaled
  cases frames with
  | nil => trivial
  | cons frame rest =>
    obtain ⟨siblingSum, above⟩ := loose
    refine ⟨?_, siblingSum, above⟩
    have plugged : Totaled exempt total (frame.plug tree) := totaled_of_fill totaled
    have entry := (totaled_join.mp plugged).1 (none frame mem_cons_self).1
    rw [Totaled.rootEntry_eq siblingSum (rootCounts_all _), entry, labels_join]
    unfold Augment.computeWith
    cases frame.side with
    | left => exact totals.compute _ _ _ _ not_false
    | right => exact totals.compute _ _ _ _ not_false

end

section Linked

variable {place : List (Frame ι α)} {color : Color} {left right : Tree ι α} {node : ι}
  {stale entry zero : α}

variable (totalsExcept : augment.Totals (fun label => label = node) counted)
  (agree : ∀ labels, (∀ label ∈ labels, ¬label = node) → counted labels = total labels)

include totalsExcept agree

/-- A node is linked and the tree repaired while its entry is not known: the other entries are
totals that do not count it. -/
theorem totaled_insertFix_linked
    (skips : ∀ before after, counted (before ++ after) = counted (before ++ node :: after))
    (apart : (fill frames .leaf).labels.Nodup) (fresh : node ∉ (fill frames .leaf).labels)
    (sum : Summed total (fill frames .leaf))
    (inserted : insertFix augment frames (.node .red .leaf node stale .leaf) =
      fill place (.node color left node entry right)) :
    (fill place (.node color left node entry right)).labels.Nodup ∧
      Totaled (fun label => label = node) counted
        (fill place (.node color left node entry right)) := by
  have labels : (fill place (.node color left node entry right)).labels =
      labelsBefore frames ++ node :: labelsAfter frames := by
    rw [← inserted, labels_insertFix_leaf]
  rw [labels_fill_leaf] at apart fresh
  have outside : ∀ frame ∈ frames, ∀ label, label = frame.label ∨ label ∈ frame.sibling.labels →
      ¬label = node := by
    rintro frame inside label member rfl
    exact fresh (mem_append.mpr (mem_labels_of_frame inside member))
  have linked : Totaled (fun label => label = node) counted
      (fill frames (.node .red .leaf node stale .leaf)) := by
    have base : Totaled (fun label => label = node) counted (fill frames .leaf) := by
      refine (totaled_iff_summed agree ?_).mpr sum
      rw [labels_fill_leaf]
      rintro label member rfl
      exact fresh member
    refine totaled_fill_of_counts ?_ base ⟨absurd rfl, trivial, trivial⟩
    exact skips
  have repaired := totaled_insertFix totalsExcept linked
    (fun frame inside => ⟨outside frame inside _ (.inl rfl), ?_⟩)
    (fun side => by cases side <;> trivial)
  · rw [inserted] at repaired
    refine ⟨?_, repaired⟩
    rw [labels, nodup_middle]
    exact nodup_cons.mpr ⟨fresh, apart⟩
  · cases siblingEq : frame.sibling with
    | leaf => trivial
    | node _ _ label _ _ => exact outside frame inside label (.inr (by simp [siblingEq]))

/-- After that the entry and those above it are computed, and all are totals. -/
theorem summed_refresh_of_linked [DecidableEq α] (totals : augment.Totals (fun _ => False) total)
    (nodup : (fill place (.node color left node entry right)).labels.Nodup)
    (repaired : Totaled (fun label => label = node) counted
      (fill place (.node color left node entry right)))
    (changes : total (left.labels ++ node :: right.labels) = zero → counted = total) :
    Summed total (refresh augment place color left node zero right) := by
  obtain ⟨around, notLeft, notRight⟩ := not_mem_around nodup
  obtain ⟨_, leftTotaled, rightTotaled⟩ := totaled_of_fill repaired
  have leftSum := (totaled_iff_summed agree notLeft).mp leftTotaled
  have rightSum := (totaled_iff_summed agree notRight).mp rightTotaled
  by_cases same : total (left.labels ++ node :: right.labels) = zero
  · -- the entry does not change, and the node does not count anyway
    rw [changes same] at repaired
    have settled := settled_total_of_totaled around totals repaired
    rw [labels_node] at settled
    refine summed_refresh totals leftSum rightSum ?_
    rw [← same]
    cases labels : left.labels with
    | nil => rwa [labels] at settled
    | cons first others => rwa [labels] at settled
  · exact summed_refresh_of_ne totals leftSum rightSum same
      (loose_of_totaled around totalsExcept agree repaired)

end Linked

end Exempt

end RedBlack
