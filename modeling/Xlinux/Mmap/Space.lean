/-
This file follows the areas of a process through the calls that change them. The
list and the tree have the same areas in the same order, and the nodes have the
largest gaps of their subtrees; a new area keeps this, and so does a stack that
grows, as long as it does not grow into the area before it.
-/

import Xlinux.Mmap.Gaps
import Xlinux.Vma.Order
import Xlinux.Lib.Ensures
import Xlinux.Lib.Links
import Xlinux.Lib.Run

namespace Xlinux

open RedBlack Cells Hoare Links List
open Function

/-! ### The list of areas -/

/-- The area after another one, or the first one if there is none. -/
def MmStruct.next (mm : MmStruct) (vma : UInt64) : UInt64 :=
  if vma = 0 then mm.mmap else (mm.areas vma).vmNext

def MmStruct.prev (mm : MmStruct) (vma : UInt64) : UInt64 := (mm.areas vma).vmPrev

/-- The areas after one was put between two others. -/
def linkAreas (areas : VmAreas) (vma prev next : UInt64) : VmAreas :=
  let first := areas.write vma fun area => { area with vmPrev := prev }
  let second := if prev ≠ 0 then first.write prev fun area => { area with vmNext := vma } else first
  let third := second.write vma fun area => { area with vmNext := next }
  if next ≠ 0 then third.write next fun area => { area with vmPrev := vma } else third

section List

variable {areas : VmAreas} {mm : MmStruct} {vma prev next one : UInt64} {before after : List UInt64}
  {change : VmAreaStruct → VmAreaStruct} {β : Type}

theorem write_self : areas.write vma change vma = change (areas vma) :=
  update_self ..

theorem write_of_ne (different : one ≠ vma) : areas.write vma change one = areas one :=
  update_of_ne different ..

theorem write_apply : areas.write vma change one =
    if one = vma then change (areas one) else areas one := by
  split_ifs with same
  · rw [same, write_self]
  · exact write_of_ne same

variable (areas vma one) in
/-- A write leaves what it does not change. -/
theorem field_write {field : VmAreaStruct → β} (keeps : ∀ area, field (change area) = field area) :
    field (areas.write vma change one) = field (areas one) := by
  rw [write_apply]
  split_ifs
  · exact keeps _
  · rfl

/-- Linking changes links only. -/
theorem linkAreas_apply : linkAreas areas vma prev next one = { areas one with
    vmPrev := if one = next ∧ next ≠ 0 then vma else if one = vma then prev else (areas one).vmPrev
    vmNext := if one = vma then next else if one = prev ∧ prev ≠ 0 then vma
      else (areas one).vmNext } := by
  simp only [linkAreas, ite_apply, write_apply]
  split_ifs <;> grind

/-- `__vma_link_list` puts an area between two others. -/
theorem returns_vmaLinkList :
    Hoare.Returns (vmaLinkList vma prev) mm fun _ after => after = { mm with
      areas := linkAreas mm.areas vma prev (mm.next prev)
      mmap := if prev = 0 then vma else mm.mmap } := by
  rw [vmaLinkList]
  refine returns_modify ?_
  have read : ((mm.areas.write vma fun area => { area with vmPrev := prev }) prev).vmNext =
    (mm.areas prev).vmNext := field_write mm.areas vma prev fun _ => rfl
  by_cases first : prev = 0
  all_goals
    simp only [first, linkAreas, MmStruct.next, ne_eq, not_true_eq_false, not_false_eq_true,
      if_true, if_false, bind_assoc, pure_bind] at read ⊢
    refine returns_get (returns_modify (returns_modify ?_))
    simp only [read]
    split
    · exact returns_modify_last rfl
    · exact returns_pure rfl

/-- An area is put into the list. -/
theorem linked_linkAreas (linked : Linked mm.next mm.prev 0 (before ++ after) 0)
    (nodup : (0 :: (before ++ vma :: after)).Nodup) :
    let prev := before.getLastD 0
    let linkedMm : MmStruct := { mm with
      areas := linkAreas mm.areas vma prev (mm.next prev)
      mmap := if prev = 0 then vma else mm.mmap }
    Linked linkedMm.next linkedMm.prev 0 (before ++ vma :: after) 0 := by
  intro prev linkedMm
  have behind : mm.next prev = after.headD 0 := linked.next_getLastD
  obtain ⟨zeroOutside, inner⟩ := nodup_cons.mp nodup
  have vmaOutside : vma ∉ before ++ after := (nodup_cons.mp (nodup_middle.mp inner)).1
  have nonzero : vma ≠ 0 := by
    rintro rfl
    exact zeroOutside (by simp)
  have apart : vma ≠ prev := by
    intro same
    have member : prev ∈ 0 :: before := getLastD_mem_cons
    rcases mem_cons.mp member with zero | earlier
    · exact nonzero (same.trans zero)
    · exact vmaOutside (mem_append_left _ (same ▸ earlier))
  have first : ∀ one, one = mm.next prev ∧ mm.next prev ≠ 0 ↔ one ∈ after.head? := by
    intro one
    rw [behind]
    cases after with
    | nil => simp
    | cons head after =>
      have headNe : head ≠ 0 := by
        rintro rfl
        exact zeroOutside (by simp)
      simp [headNe, eq_comm]
  have nextEq : ∀ one, linkedMm.next one =
      if one = prev then vma else if one = vma then mm.next prev else mm.next one := by
    intro one
    simp only [linkedMm, MmStruct.next, linkAreas_apply]
    grind
  have prevEq : ∀ one, linkedMm.prev one =
      if one ∈ after.head? then vma else if one = vma then prev else mm.prev one := by
    intro one
    simp only [linkedMm, MmStruct.prev, linkAreas_apply, first]
  have outside : ∀ one ∈ before ++ after, one ≠ vma := by
    rintro one member rfl
    exact vmaOutside member
  refine linked.insert nodup ?_ ?_ ?_ ?_ ?_ ?_
  · rw [nextEq, if_pos rfl]
  · rw [nextEq, if_neg apart, if_pos rfl]
  · intro one member different
    rw [nextEq, if_neg different, if_neg]
    rcases mem_cons.mp member with rfl | inside
    · exact nonzero.symm
    · exact outside one inside
  · rw [prevEq, if_neg, if_pos rfl]
    exact fun member => vmaOutside (mem_append_right _ (mem_of_mem_head? member))
  · intro one member
    rw [prevEq, if_pos member]
  · intro one member notFirst
    rw [prevEq, if_neg notFirst, if_neg (outside one member)]

end List

/-! ### Places for new areas -/

/-- The areas as ranges. -/
def rangeOf (areas : VmAreas) : VmapAreas := fun vma => ⟨(areas vma).vmStart, (areas vma).vmEnd⟩

/-- What `find_vma_links` stores for a place. -/
def linksOf (frames : List MaxFrame) : VmaLinks :=
  ⟨(labelsBefore frames).getLastD 0, linkOf frames, parentOf 0 frames⟩

section Places

variable {areas : VmAreas} {addr stop : UInt64} {memory : RbTree UInt64} {mm : MmStruct}
  {frames : List MaxFrame} {tree : MaxTree} {β : Type} {value : β}
  {code : RbM UInt64 β}

/-- The loop of `find_vma_links` goes down to a place where there is nothing, if no area
overlaps. -/
theorem Represents.findVmaLinksLoop {turns : Nat}
    (represents : Represents memory (fill frames tree))
    (along : ∀ frame ∈ frames, Apart (rangeOf areas) ⟨addr, stop⟩ frame)
    (enough : tree.labels.length < turns) :
    Hoare.Returns (Xlinux.findVmaLinksLoop areas addr stop turns ((labelsBefore frames).getLastD 0)
      (parentOf 0 frames) (linkOf frames)) memory fun result after => after = memory ∧
        (result = none → ∃ vma ∈ tree.labels, addr < (areas vma).vmEnd ∧
          (areas vma).vmStart < stop) ∧
        ∀ links, result = some links → ∃ place, links = linksOf place ∧
          fill frames tree = fill place .leaf ∧
          ∀ frame ∈ place, Apart (rangeOf areas) ⟨addr, stop⟩ frame := by
  induction tree generalizing frames turns with
  | leaf =>
    obtain ⟨turns, rfl⟩ := Nat.exists_eq_succ_of_ne_zero (ne_zero_of_lt enough)
    rw [Hoare.Returns, findVmaLinksLoop, read_bind represents.readRbLink]
    refine ⟨some (linksOf frames), memory, rfl, rfl, by simp, ?_⟩
    rintro links ⟨⟩
    exact ⟨frames, rfl, rfl, along⟩
  | node color left label entry right leftFinds rightFinds =>
    obtain ⟨turns, rfl⟩ := Nat.exists_eq_succ_of_ne_zero (ne_zero_of_lt enough)
    rw [labels_node, length_append, length_cons] at enough
    rw [Hoare.Returns, findVmaLinksLoop, read_bind represents.readRbLink, labels_node, rootPtr,
      if_pos represents.at_place.ne]
    split
    case isTrue above =>
      split_ifs with low
      · exact ⟨none, memory, rfl, rfl, fun _ => ⟨label, by simp, above, low⟩, by simp⟩
      · have place := represents.at_left
        have found : Hoare.Returns (findVmaLinksLoop areas addr stop turns _ _ _) memory _ :=
          leftFinds place (forall_mem_cons.mpr ⟨UInt64.not_lt.mp low, along⟩) (by omega)
        rw [labelsBefore_cons, append_nil] at found
        refine found.mono fun _ _ ran => ⟨ran.1, fun none => ?_, ran.2.2⟩
        obtain ⟨vma, member, overlaps⟩ := ran.2.1 none
        exact ⟨vma, mem_append_left _ member, overlaps⟩
    case isFalse below =>
      have place := represents.at_right
      have found : Hoare.Returns (findVmaLinksLoop areas addr stop turns _ _ _) memory _ :=
        rightFinds place (forall_mem_cons.mpr ⟨UInt64.not_lt.mp below, along⟩) (by omega)
      rw [labelsBefore_cons, ← append_assoc, getLastD_concat] at found
      refine found.mono fun _ _ ran => ⟨ran.1, fun none => ?_, ran.2.2⟩
      obtain ⟨vma, member, overlaps⟩ := ran.2.1 none
      exact ⟨vma, by simp [member], overlaps⟩

/-- Work on the tree. -/
theorem returns_onMmRb {post : RbTree UInt64 → Prop}
    (ran : Returns code ⟨mm.nodes, mm.mmRb⟩ value post) :
    Hoare.Returns (onMmRb code) mm fun result after => result = value ∧
      ∃ memory, after = { mm with nodes := memory.nodes, mmRb := memory.rbNode } ∧ post memory := by
  obtain ⟨memory, returned, holds⟩ := ran
  refine ⟨value, _, ?_, rfl, memory, rfl, holds⟩
  rw [onMmRb, returned]
  rfl

/-- `find_vma_links` finds a place between the areas, if no area overlaps. -/
theorem Represents.findVmaLinks (represents : Represents ⟨mm.nodes, mm.mmRb⟩ tree) :
    Hoare.Returns (Xlinux.findVmaLinks addr stop) mm fun result after => after = mm ∧
      (result = none →
        ∃ vma ∈ tree.labels, addr < (mm.areas vma).vmEnd ∧ (mm.areas vma).vmStart < stop) ∧
      ∀ links, result = some links → ∃ place, links = linksOf place ∧ tree = fill place .leaf ∧
        ∀ frame ∈ place, Apart (rangeOf mm.areas) ⟨addr, stop⟩ frame := by
  have place : Represents ⟨mm.nodes, mm.mmRb⟩ (fill [] tree) := represents
  have found : Hoare.Returns (Xlinux.findVmaLinksLoop mm.areas addr stop maxTurns 0 0 .root)
      ⟨mm.nodes, mm.mmRb⟩ _ := place.findVmaLinksLoop nofun represents.length_labels_lt
  obtain ⟨result, _, ran, rfl, found⟩ := found
  refine ⟨result, mm, ?_, rfl, found⟩
  show onMmRb (Xlinux.findVmaLinksLoop mm.areas addr stop maxTurns 0 0 .root) mm = _
  rw [onMmRb, ran]
  rfl

end Places

/-! ### Areas in the list and in the tree -/

/-- A multiple of `PAGE_SIZE`. -/
def PageAligned (addr : UInt64) : Prop := pageSize.toNat ∣ addr.toNat

/-- The areas of a process are in its tree, with some nodes in memory besides: they are
page-aligned, not empty and in order, the list has the same areas, and nodes have the maxima of the
gaps. -/
structure Mapped (mm : MmStruct) (tree : MaxTree)
    (extra : NodeCells UInt64) : Prop where
  owns : Owns Usable mm.nodes (treeCells 0 tree + extra)
  root : mm.mmRb = rootPtr tree
  valid : tree.Valid
  linked : Linked mm.next mm.prev 0 tree.labels 0
  ordered : Ordered (rangeOf mm.areas) tree.labels
  aligned : ∀ vma ∈ tree.labels, PageAligned (mm.areas vma).vmStart ∧
    PageAligned (mm.areas vma).vmEnd
  summed : Summed (maxOver (vmaComputeGap mm.areas)) tree

section Mapped

variable {mm : MmStruct} {tree : MaxTree} {extra : NodeCells UInt64}
  {frames : List MaxFrame} {vma : UInt64} {record : RbNode UInt64}

theorem Mapped.holds (mapped : Mapped mm tree extra) : HoldsTree ⟨mm.nodes, mm.mmRb⟩ tree extra :=
  ⟨mapped.owns, mapped.root⟩

theorem Mapped.represents (mapped : Mapped mm tree extra) : Represents ⟨mm.nodes, mm.mmRb⟩ tree :=
  ⟨mapped.owns.part, mapped.root⟩

theorem Mapped.zero_not_mem (mapped : Mapped mm tree extra) : 0 ∉ tree.labels := by
  intro member
  obtain ⟨_, _, _, _, _, rfl⟩ := exists_fill_of_mem_labels member
  exact mapped.represents.at_place.ne rfl

theorem Mapped.not_mem (mapped : Mapped mm tree (cell vma record + extra)) : vma ∉ tree.labels := by
  have owns := mapped.owns
  rw [add_left_comm] at owns
  have outside := owns.not_mem
  rw [Multiset.map_add, Multiset.mem_add, not_or, map_fst_treeCells] at outside
  exact outside.1

theorem Mapped.ne_zero (mapped : Mapped mm tree (cell vma record + extra)) : vma ≠ 0 := by
  have owns := mapped.owns
  rw [add_left_comm] at owns
  exact owns.usable_addr.1

/-- The areas after `__vma_link_list`. -/
def listed (mm : MmStruct) (vma : UInt64) (frames : List MaxFrame) : MmStruct :=
  let prev := (labelsBefore frames).getLastD 0
  { mm with
    areas := linkAreas mm.areas vma prev (mm.next prev)
    mmap := if prev = 0 then vma else mm.mmap }

/-- The gap of the area behind a new one is brought up to date. -/
theorem Mapped.updateNext (mapped : Mapped mm (fill frames .leaf) (cell vma record + extra)) :
    Hoare.Returns (vmaUpdateNext vma) (listed mm vma frames) fun _ after => ∃ other memory highest,
        after = { listed mm vma frames with
          nodes := memory.nodes, mmRb := memory.rbNode, highestVmEnd := highest } ∧
        other.map Frame.bare = frames.map Frame.bare ∧
        Summed (maxOver (vmaComputeGap (listed mm vma frames).areas)) (fill other .leaf) ∧
        HoldsTree memory (fill other .leaf) (cell vma record + extra) := by
  have fresh := mapped.not_mem
  have zero := mapped.zero_not_mem
  have list := mapped.linked
  rw [labels_fill_leaf] at list
  have behind := list.next_getLastD
  have nextEq : ((listed mm vma frames).areas vma).vmNext = (labelsAfter frames).headD 0 := by
    refine (congrArg VmAreaStruct.vmNext linkAreas_apply).trans ?_
    rw [if_pos rfl, behind]
  have same : ∀ one ∈ (fill frames (Tree.leaf : MaxTree)).labels,
      one ≠ (labelsAfter frames).headD 0 →
      vmaComputeGap (listed mm vma frames).areas one = vmaComputeGap mm.areas one := by
    intro one member different
    have back : ((listed mm vma frames).areas one).vmPrev = (mm.areas one).vmPrev := by
      simp only [listed, linkAreas_apply]
      rw [behind, if_neg fun both => different both.1, if_neg]
      rintro rfl
      exact fresh member
    rw [vmaComputeGap, vmaComputeGap, back]
    simp only [listed, linkAreas_apply, vmStartGap, vmEndGap]
  have holds : Holds ⟨(listed mm vma frames).nodes, (listed mm vma frames).mmRb⟩ _ _ := mapped.holds
  rw [vmaUpdateNext]
  refine returns_get ?_
  dsimp only
  rw [nextEq]
  cases after : labelsAfter frames with
  | nil =>
    rw [after] at same
    refine returns_modify_last ⟨frames, _, _, rfl, rfl, ?_, mapped.holds⟩
    refine summed_congr (fun one member => same one member ?_) mapped.summed
    rintro rfl
    exact zero member
  | cons next later =>
    rw [after] at same
    have nonzero : next ≠ 0 := by
      rintro rfl
      refine zero ?_
      rw [labels_fill_leaf, after]
      simp
    rw [headD_cons, if_pos nonzero]
    refine returns_get ?_
    have updated := holds.maxPropagate_next after mapped.represents.nodup mapped.summed same
    refine (returns_onMmRb updated).mono fun _ last ran => ?_
    obtain ⟨_, memory, rfl, other, bare, sum, holds⟩ := ran
    exact ⟨other, memory, _, rfl, bare, sum, holds⟩

variable (mm) in
/-- A new area is linked into the tree, its gap is computed, and the tree is repaired. -/
theorem returns_linkRb (valid : (fill frames .leaf).Valid)
    (sum : Summed (maxOver (vmaComputeGap mm.areas)) (fill frames .leaf))
    (holds : HoldsTree ⟨mm.nodes, mm.mmRb⟩ (fill frames .leaf) (cell vma record + extra)) :
    Hoare.Returns (do
      onMmRb (rbLinkNode vma (parentOf 0 frames) (linkOf frames))
      onMmRb (modifyNode vma fun rb => { rb with entry := 0 })
      vmaGapUpdate vma
      vmaRbInsert vma) mm fun _ after => ∃ (tree : MaxTree) (memory : RbTree UInt64),
        after = { mm with nodes := memory.nodes, mmRb := memory.rbNode } ∧ tree.Valid ∧
        tree.labels = labelsBefore frames ++ vma :: labelsAfter frames ∧
        Summed (maxOver (vmaComputeGap mm.areas)) tree ∧
        HoldsTree memory tree extra := by
  obtain ⟨other, entry, bare, refreshed, sumOther⟩ := exists_refresh_linked vma sum
  have validOther : (fill other .leaf).Valid :=
    (valid_fill_congr (map_shape_of_bare bare)).mpr valid
  obtain ⟨before, after⟩ := labels_of_bare bare
  refine (returns_onMmRb holds.rbLinkNode).bind fun _ first ran => ?_
  obtain ⟨_, memory, rfl, holds⟩ := ran
  refine (returns_onMmRb (holds.setEntry 0)).bind fun _ second ran => ?_
  obtain ⟨_, memory, rfl, holds⟩ := ran
  refine Hoare.Returns.bind
    (returns_get (returns_onMmRb (holds.maxPropagate _))) fun _ third ran => ?_
  obtain ⟨_, memory, rfl, holds⟩ := ran
  have place : HoldsTree memory (fill other (.node .red .leaf vma entry .leaf)) extra :=
    refreshed ▸ holds
  refine returns_get ?_
  refine (returns_onMmRb (place.rbInsertLinked (rotates_maxRotate _) validOther)).mono
    fun _ last ran => ?_
  obtain ⟨_, memory, rfl, holds⟩ := ran
  refine ⟨_, memory, rfl, valid_insertFix_leaf validOther, ?_,
    summed_insertFix_leaf sumOther, holds⟩
  rw [labels_insertFix_leaf, before, after]

/-- A new area is put into the list and into the tree. -/
theorem Mapped.vmaLink (mapped : Mapped mm (fill frames .leaf) (cell vma record + extra))
    (apart : ∀ frame ∈ frames, Apart (rangeOf mm.areas) (rangeOf mm.areas vma) frame)
    (nonempty : (mm.areas vma).vmStart < (mm.areas vma).vmEnd)
    (aligned : PageAligned (mm.areas vma).vmStart ∧ PageAligned (mm.areas vma).vmEnd) :
    Hoare.Returns (Xlinux.vmaLink vma (linksOf frames)) mm fun _ after => ∃ next : MaxTree,
      Mapped after next extra ∧ next.labels = labelsBefore frames ++ vma :: labelsAfter frames ∧
      rangeOf after.areas = rangeOf mm.areas ∧ after.defFlags = mm.defFlags := by
  have labels := labels_fill_leaf (α := UInt64) frames
  have fresh := mapped.not_mem
  have zero := mapped.zero_not_mem
  have distinct := mapped.represents.nodup
  have list := mapped.linked
  have order := mapped.ordered
  rw [labels] at fresh zero distinct list order
  obtain ⟨earlier, later⟩ := mapped.ordered.placed apart
  have nodup : (0 :: (labelsBefore frames ++ vma :: labelsAfter frames)).Nodup := by
    rw [nodup_cons, nodup_middle, nodup_cons]
    have nonzero := mapped.ne_zero
    exact ⟨by grind, fresh, distinct⟩
  have relinked := linked_linkAreas list nodup
  have range : rangeOf (listed mm vma frames).areas = rangeOf mm.areas := by
    funext one
    simp only [listed, rangeOf, linkAreas_apply]
  rw [Xlinux.vmaLink]
  refine returns_vmaLinkList.bind fun _ first same => ?_
  rw [show first = listed mm vma frames from same]
  rw [vmaLinkRb]
  refine mapped.updateNext.bind fun _ second ran => ?_
  obtain ⟨_, memory, highest, rfl, bare, sum, holds⟩ := ran
  have validOther := (valid_fill_congr (map_shape_of_bare bare)).mpr mapped.valid
  obtain ⟨parent, link⟩ := link_of_bare bare
  obtain ⟨before, after⟩ := labels_of_bare bare
  rw [linksOf, ← parent, ← link]
  have inserted := returns_linkRb { listed mm vma frames with
    nodes := memory.nodes, mmRb := memory.rbNode, highestVmEnd := highest } validOther sum holds
  refine inserted.mono fun _ last ran => ?_
  obtain ⟨tree, memory, rfl, valid, treeLabels, sum, holds⟩ := ran
  rw [before, after] at treeLabels
  refine ⟨tree, ?_, treeLabels, range, rfl⟩
  exact {
    owns := holds.owns
    root := holds.root
    valid := valid
    linked := treeLabels ▸ relinked
    ordered := by
      rw [treeLabels]
      rw [range]
      exact order.insert nonempty earlier later
    aligned := by
      intro one member
      show PageAligned (rangeOf (listed mm vma frames).areas one).vaStart ∧
        PageAligned (rangeOf (listed mm vma frames).areas one).vaEnd
      rw [range]
      rcases eq_or_ne one vma with rfl | other
      · exact aligned
      · exact mapped.aligned one (by grind)
    summed := sum }

/-- What is not in the tree does not count. -/
theorem Mapped.of_areas {areas : VmAreas} (mapped : Mapped mm tree extra)
    (same : ∀ one ∈ tree.labels, areas one = mm.areas one) :
    Mapped { mm with areas := areas } tree extra where
  owns := mapped.owns
  root := mapped.root
  valid := mapped.valid
  linked := by
    refine mapped.linked.congr (fun one member => ?_) fun one member => ?_
    · rcases mem_cons.mp member with rfl | inside
      · exact (if_pos rfl).trans (if_pos rfl).symm
      · show (if one = 0 then mm.mmap else (areas one).vmNext) = _
        rw [same one inside]
        rfl
    · exact congrArg VmAreaStruct.vmPrev (same one member)
  ordered := mapped.ordered.congr fun one member => by
    show rangeOf areas one = rangeOf mm.areas one
    rw [rangeOf, rangeOf, same one member]
  aligned one member := by
    show PageAligned (areas one).vmStart ∧ PageAligned (areas one).vmEnd
    rw [same one member]
    exact mapped.aligned one member
  summed := by
    refine summed_congr (fun one member => ?_) mapped.summed
    show vmaComputeGap areas one = _
    obtain ⟨before, _, split⟩ := append_of_mem member
    have list := mapped.linked
    rw [split] at list
    have back : (mm.areas one).vmPrev = before.getLastD 0 := list.prev_eq
    rw [vmaComputeGap, vmaComputeGap, same one member]
    by_cases first : (mm.areas one).vmPrev = 0
    · rw [if_neg (not_not.mpr first), if_neg (not_not.mpr first)]
    · have inside : (mm.areas one).vmPrev ∈ before := by
        have last : before.getLastD 0 ∈ 0 :: before := getLastD_mem_cons
        rw [← back] at last
        exact (mem_cons.mp last).resolve_left first
      rw [same _ (split ▸ mem_append_left _ inside)]

/-- Memory for a new area. -/
theorem Mapped.fresh (mapped : Mapped mm tree 0) (usable : Usable vma) (unused : vma ∉ tree.labels)
    (area : VmAreaStruct) (record : RbNode UInt64) :
    Mapped { mm with
      areas := update mm.areas vma area
      nodes := update mm.nodes vma record } tree (cell vma record + 0) := by
  have other : ∀ one ∈ tree.labels, update mm.areas vma area one = mm.areas one :=
    fun one member => update_of_ne (ne_of_mem_of_not_mem member unused) ..
  have outside : vma ∉ (treeCells 0 tree + 0).map Prod.fst := by
    rwa [add_zero, map_fst_treeCells]
  have owns := mapped.owns.fresh usable outside record
  rw [add_left_comm] at owns
  exact { mapped.of_areas other with owns := owns }

theorem Mapped.drop (mapped : Mapped mm tree extra) : Mapped mm tree 0 :=
  { mapped with owns := (add_zero (treeCells 0 tree)).symm ▸ mapped.owns.part }

/-! ### New areas -/

/-- An area for a range is in memory, and it can be linked at a place. -/
structure Ready (mm : MmStruct) (frames : List MaxFrame) (vma : UInt64)
    (range : VmapArea) : Prop where
  mapped : ∃ record, Mapped mm (fill frames .leaf) (cell vma record + 0)
  apart : ∀ frame ∈ frames, Apart (rangeOf mm.areas) range frame

/-- The new areas: one more if it could be linked, and the same otherwise. -/
def Grown (vma : UInt64) (tree : MaxTree) (linked : Prop) (after : MmStruct) : Prop :=
  ∃ next : MaxTree, Mapped after next 0 ∧
    ∀ one, one ∈ next.labels ↔ one ∈ tree.labels ∨ linked ∧ one = vma

variable {range : VmapArea}

/-- Only areas of the tree count for a place. -/
theorem apart_of_areas {areas next : VmAreas}
    (same : ∀ one ∈ (fill frames (Tree.leaf : MaxTree)).labels, next one = areas one)
    (apart : ∀ frame ∈ frames, Apart (rangeOf areas) range frame) :
    ∀ frame ∈ frames, Apart (rangeOf next) range frame := by
  intro frame inside
  have label : frame.label ∈ (fill frames (Tree.leaf : MaxTree)).labels := by
    rw [labels_fill]
    exact mem_append.mpr (mem_labels_of_frame inside (.inl rfl))
  have here := apart frame inside
  unfold Apart rangeOf at here ⊢
  simp only [same frame.label label]
  exact here

/-- Memory is there for an area with a place. -/
theorem Mapped.ready (mapped : Mapped mm (fill frames .leaf) 0) (usable : Usable vma)
    (unused : vma ∉ (fill frames (Tree.leaf : MaxTree)).labels)
    (apart : ∀ frame ∈ frames, Apart (rangeOf mm.areas) range frame) (area : VmAreaStruct)
    (record : RbNode UInt64) :
    Ready { mm with
      areas := update mm.areas vma area
      nodes := update mm.nodes vma record } frames vma range :=
  ⟨⟨record, mapped.fresh usable unused area record⟩, apart_of_areas
    (fun _ member => update_of_ne (ne_of_mem_of_not_mem member unused) ..) apart⟩

/-- A write to the new area. -/
theorem Ready.write (ready : Ready mm frames vma range) (change : VmAreaStruct → VmAreaStruct) :
    Ready { mm with areas := mm.areas.write vma change } frames vma range := by
  obtain ⟨record, mapped⟩ := ready.mapped
  have other : ∀ one ∈ (fill frames (Tree.leaf : MaxTree)).labels,
      mm.areas.write vma change one = mm.areas one :=
    fun one member => write_of_ne (ne_of_mem_of_not_mem member mapped.not_mem)
  exact ⟨⟨record, mapped.of_areas other⟩, apart_of_areas other ready.apart⟩

/-- The new area has its range. -/
structure Prepared (mm : MmStruct) (frames : List MaxFrame) (vma : UInt64)
    (range : VmapArea) : Prop extends Ready mm frames vma range where
  filled : rangeOf mm.areas vma = range

theorem Ready.fill (ready : Ready mm frames vma range) (change : VmAreaStruct → VmAreaStruct)
    (sets : ∀ area, (change area).vmStart = range.vaStart ∧ (change area).vmEnd = range.vaEnd) :
    Prepared { mm with areas := mm.areas.write vma change } frames vma range where
  toReady := ready.write change
  filled := by
    show rangeOf (mm.areas.write vma change) vma = range
    rw [rangeOf, write_self, (sets _).1, (sets _).2]

theorem Prepared.keep (filled : Prepared mm frames vma range) (change : VmAreaStruct → VmAreaStruct)
    (keeps : ∀ area, (change area).vmStart = area.vmStart ∧ (change area).vmEnd = area.vmEnd) :
    Prepared { mm with areas := mm.areas.write vma change } frames vma range where
  toReady := filled.write change
  filled := by
    refine Eq.trans ?_ filled.filled
    show rangeOf (mm.areas.write vma change) vma = rangeOf mm.areas vma
    rw [rangeOf, write_self, (keeps _).1, (keeps _).2, rangeOf]

/-- The area is linked. -/
theorem Prepared.link (filled : Prepared mm frames vma range)
    (nonempty : range.vaStart < range.vaEnd)
    (aligned : PageAligned range.vaStart ∧ PageAligned range.vaEnd) :
    Hoare.Returns (Xlinux.vmaLink vma (linksOf frames)) mm fun _ after =>
      Grown vma (fill frames .leaf) True after ∧ rangeOf after.areas = rangeOf mm.areas ∧
        after.defFlags = mm.defFlags := by
  obtain ⟨⟨⟨_, mapped⟩, apart⟩, rfl⟩ := filled
  refine (mapped.vmaLink apart nonempty aligned).mono fun _ after ran => ?_
  obtain ⟨next, mappedNext, labels, same⟩ := ran
  refine ⟨⟨next, mappedNext, fun one => ?_⟩, same⟩
  rw [labels, labels_fill_leaf]
  simp only [mem_append, mem_cons]
  tauto

end Mapped

end Xlinux
