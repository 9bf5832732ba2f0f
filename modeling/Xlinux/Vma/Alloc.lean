/-
This file is about runs of `get_vm_area`. What is free and what is busy cuts the
address space up; an allocation moves a range from one side to the other, by
whichever of the four ways to split a free area. The ranges that were handed out
stay apart.
-/

import Xlinux.Vma.Space
import Xlinux.Lib.Run

namespace Xlinux

open RedBlack Cells Hoare List UInt64
open Function

/-! ### Coverage -/

/-- Whether an address is in an area. -/
def VmapArea.Has (va : VmapArea) (address : Nat) : Prop :=
  va.vaStart.toNat ≤ address ∧ address < va.vaEnd.toNat

instance (va : VmapArea) (address : Nat) : Decidable (va.Has address) :=
  inferInstanceAs (Decidable (_ ∧ _))

/-- How many of some areas an address is in. -/
def cover (areas : VmapAreas) (nodes : List UInt64) (address : Nat) : Nat :=
  nodes.countP fun node => (areas node).Has address

section Cover

variable {areas : VmapAreas} {nodes others : List UInt64} {node : UInt64} {address : Nat}

theorem cover_append : cover areas (nodes ++ others) address =
    cover areas nodes address + cover areas others address :=
  countP_append

theorem cover_singleton :
    cover areas [node] address = if (areas node).Has address then 1 else 0 := by
  simp [cover]

theorem cover_congr {next : VmapAreas} (same : ∀ node ∈ nodes, next node = areas node) :
    cover next nodes address = cover areas nodes address :=
  countP_congr fun node member => by rw [same node member]

theorem cover_middle : cover areas (nodes ++ node :: others) address =
    cover areas [node] address + cover areas (nodes ++ others) address := by
  rw [cover_append, ← singleton_append, cover_append, cover_append]
  omega

theorem cover_erase (member : node ∈ nodes) : cover areas nodes address =
    cover areas [node] address + cover areas (nodes.erase node) address := by
  obtain ⟨_, _, _, rfl, erased⟩ := exists_erase_eq member
  rw [erased, cover_middle]

/-- One area changes. -/
theorem cover_update (areas : VmapAreas) (va : VmapArea) (apart : nodes.Nodup)
    (member : node ∈ nodes) (address : Nat) :
    cover areas nodes address + cover (update areas node va) [node] address =
      cover (update areas node va) nodes address + cover areas [node] address := by
  have others : cover (update areas node va) (nodes.erase node) address =
      cover areas (nodes.erase node) address :=
    cover_congr fun other inRest => update_of_ne (apart.mem_erase_iff.mp inRest).1 ..
  have before : cover areas nodes address = _ := cover_erase member
  have after : cover (update areas node va) nodes address = _ := cover_erase member
  omega

/-- An area cut in two. -/
theorem has_split {start middle stop : UInt64} (low : start ≤ middle) (high : middle ≤ stop)
    (address : Nat) :
    (if VmapArea.Has ⟨start, stop⟩ address then 1 else 0) =
      (if VmapArea.Has ⟨start, middle⟩ address then 1 else 0) +
        if VmapArea.Has ⟨middle, stop⟩ address then 1 else 0 := by
  rw [le_iff_toNat_le] at low high
  split_ifs <;> simp only [VmapArea.Has] at * <;> omega

end Cover

/-! ### The four ways to split an area -/

section Adjust

variable {space : VmapSpace} {trees : VmapRoot → MaxTree}
  {extra : NodeCells UInt64} {ptr nvaStart size : UInt64} {lva : FreshArea}

/-- Memory that `kmem_cache_alloc` may hand out: it is not in use. -/
structure FreshArea.Unused (fresh : FreshArea) (trees : VmapRoot → MaxTree)
    (extra : NodeCells UInt64) : Prop where
  usable : fresh.ptr ≠ 0 → Usable fresh.ptr
  unlinked : ∀ which, fresh.ptr ∉ (trees which).labels
  outside : fresh.ptr ∉ extra.map Prod.fst

section

variable (spaces : Spaces space trees extra)

include spaces

/-- An area that is in neither tree is written. -/
theorem Spaces.setArea {node : UInt64} (unlinked : ∀ which, node ∉ (trees which).labels)
    (va : VmapArea) : Spaces { space with areas := update space.areas node va } trees extra := by
  have same : ∀ which, ∀ one ∈ (trees which).labels,
      update space.areas node va one = space.areas one :=
    fun which one member => update_of_ne (ne_of_mem_of_not_mem member (unlinked which)) ..
  exact {
    owns := spaces.owns
    root := spaces.root
    list := spaces.list
    valid := spaces.valid
    ordered := fun which => (spaces.ordered which).congr (same which)
    summed :=
    summed_congr (fun one member => congrArg vaSize (same .free one member)) spaces.summed }

/-- `kmem_cache_alloc` gives a node that is not linked. -/
theorem Spaces.kmemCacheAllocArea (unused : lva.Unused trees extra) :
    Ensures (Xlinux.kmemCacheAllocArea lva) space fun result after =>
      result = lva.ptr ∧ (lva.ptr = 0 → after = space) ∧
        (lva.ptr ≠ 0 → Spaces after trees (cell lva.ptr lva.node + extra) ∧
          after.areas = update space.areas lva.ptr lva.va) := by
  intro result after ran
  rw [Xlinux.kmemCacheAllocArea] at ran
  split at ran
  case isFalse null =>
    cases ran
    exact ⟨rfl, fun _ => rfl, null.elim⟩
  case isTrue present =>
    cases ran
    refine ⟨rfl, present.elim, fun _ => ⟨?_, rfl⟩⟩
    have written := spaces.setArea unused.unlinked lva.va
    have absent : lva.ptr ∉ (treeCells 0 (trees .free) + (treeCells 0 (trees .busy) + extra)).map
        Prod.fst := by
      simp only [Multiset.map_add, Multiset.mem_add, map_fst_treeCells, not_or]
      exact ⟨unused.unlinked .free, unused.unlinked .busy, unused.outside⟩
    have owns := spaces.owns.fresh (unused.usable present) absent lva.node
    have reorder : cell lva.ptr lva.node + (treeCells 0 (trees .free) + (treeCells 0 (trees .busy) +
        extra)) = treeCells 0 (trees .free) + (treeCells 0 (trees .busy) +
          (cell lva.ptr lva.node + extra)) := by abel
    rw [reorder] at owns
    exact { written with owns := owns }

/-- What an allocation does to the free areas: a range is taken out. -/
structure Taken (space after : VmapSpace) (trees : VmapRoot → MaxTree)
    (next : MaxTree) (lva : FreshArea) (va : VmapArea) : Prop where
  cover : ∀ address, cover space.areas (trees .free).labels address =
    (if va.Has address then 1 else 0) + cover after.areas next.labels address
  others : ∀ node, node ∉ (trees .free).labels → node ≠ lva.ptr →
    after.areas node = space.areas node

/-- A range is taken out of the free areas, and the rest is in order. -/
def Carves (space after : VmapSpace) (trees : VmapRoot → MaxTree)
    (extra : NodeCells UInt64) (lva : FreshArea) (va : VmapArea) : Prop :=
  ∃ next, Spaces after (update trees .free next) extra ∧ Taken space after trees next lva va

variable (lva) in
/-- The whole area is taken. -/
theorem Spaces.takeAll (member : ptr ∈ (trees .free).labels) :
    Ensures (Xlinux.unlinkVa ptr) space fun _ after =>
      Carves space after trees extra lva (space.areas ptr) := by
  refine (spaces.unlinkVa member).mono fun _ after ran => ?_
  obtain ⟨next, spaces, labels, areas⟩ := ran
  refine ⟨next, spaces, fun address => ?_, fun node _ _ => congrFun areas node⟩
  rw [labels, areas, cover_erase member, cover_singleton]

variable (lva) in
/-- A range at an end of an area is taken. -/
theorem Spaces.takeEnd (member : ptr ∈ (trees .free).labels)
    (rest va : VmapArea) (nonempty : rest.vaStart < rest.vaEnd)
    (low : (space.areas ptr).vaStart ≤ rest.vaStart) (high : rest.vaEnd ≤ (space.areas ptr).vaEnd)
    (split : ∀ address, (if (space.areas ptr).Has address then 1 else 0) =
      (if va.Has address then 1 else 0) + if rest.Has address then 1 else 0) :
    Ensures (do
      Xlinux.setArea ptr rest
      augmentTreePropagateFrom ptr) space fun _ after => Carves space after trees extra lva va := by
  have apart := (spaces.toStores.represents .free).nodup
  refine ensures_modify ?_
  refine (spaces.shrink rest member nonempty low high).mono
    fun _ after ⟨next, spaces', labels, areas⟩ => ⟨next, spaces', fun address => ?_, ?_⟩
  · have changed := cover_update space.areas rest apart member address
    have whole := split address
    rw [cover_singleton, cover_singleton, update_self] at changed
    rw [areas, labels]
    omega
  · intro node outside _
    rw [areas, update_of_ne (ne_of_mem_of_not_mem member outside).symm]

end

theorem Ordered.apart {areas : VmapAreas} {nodes : List UInt64} {one other : UInt64}
    (ordered : Ordered areas nodes) (oneIn : one ∈ nodes) (otherIn : other ∈ nodes)
    (different : one ≠ other) :
    (areas one).vaEnd ≤ (areas other).vaStart ∨ (areas other).vaEnd ≤ (areas one).vaStart := by
  obtain ⟨before, after, rfl⟩ := append_of_mem oneIn
  obtain ⟨-, behind, across⟩ := pairwise_append.mp ordered.sorted
  have later := (pairwise_cons.mp behind).1 other
  grind

/-- A new area goes into the free tree, where `find_va_links` finds a place for it. -/
theorem Spaces.insertFree {node root : UInt64}
    (spaces : Spaces space trees (cell node record + extra))
    (nonempty : (space.areas node).vaStart < (space.areas node).vaEnd)
    (found : Ensures (findVaLinks space.areas (space.areas node) root)
      ⟨space.nodes, space.root .free⟩ fun result after =>
        after = ⟨space.nodes, space.root .free⟩ ∧ ∃ place,
          result = (parentOf 0 place, linkOf place) ∧ trees .free = fill place .leaf ∧
            ∀ frame ∈ place, Apart space.areas (space.areas node) frame) :
    Ensures (insertVmapAreaAugment node root) space fun _ after =>
      Inserted space after trees extra .free node := by
  rw [insertVmapAreaAugment]
  refine ensures_get (ensures_onTree_read found ?_)
  rintro _ ⟨place, rfl, placeEq, apart⟩
  exact spaces.linkFree apart nonempty placeEq

/-- A new area goes into the free tree on the left of one that is there. -/
theorem Spaces.insertBeside {node : UInt64} (spaces : Spaces space trees (cell node record + extra))
    (member : ptr ∈ (trees .free).labels)
    (nonempty : (space.areas node).vaStart < (space.areas node).vaEnd)
    (below : (space.areas node).vaEnd ≤ (space.areas ptr).vaStart)
    (above : ∀ other ∈ (trees .free).labels, (space.areas other).vaEnd ≤ (space.areas ptr).vaStart →
      (space.areas other).vaEnd ≤ (space.areas node).vaStart) :
    Ensures (insertVmapAreaAugment node ptr) space fun _ after =>
      Inserted space after trees extra .free node := by
  obtain ⟨frames, color, left, entry, right, place⟩ := exists_fill_of_mem_labels member
  have represents := spaces.toStores.represents .free
  have ordered := spaces.ordered .free
  rw [place] at represents ordered above
  have nonzero : ptr ≠ 0 := represents.at_place.ne
  have around : ∀ frame ∈ frames, Apart space.areas (space.areas node) frame := by
    intro frame inside
    rw [labels_fill_node, append_assoc] at ordered above
    obtain ⟨_, middle, across⟩ := pairwise_append.mp ordered.sorted
    have place := label_mem_of_frame inside
    unfold Apart
    cases side : frame.side with
    | left =>
      have after : frame.label ∈ labelsAfter frames := by rwa [side] at place
      have order := (pairwise_cons.mp (pairwise_append.mp middle).2.1).1 frame.label
        (mem_append_right _ after)
      have wide := ordered.nonempty ptr (by simp)
      exact UInt64.le_trans below (UInt64.le_trans (UInt64.le_of_lt wide) order)
    | right =>
      have before : frame.label ∈ labelsBefore frames := by rwa [side] at place
      exact above frame.label (by simp [before]) (across frame.label before ptr (by simp))
  refine spaces.insertFree nonempty ?_
  rw [findVaLinks, if_pos nonzero]
  have whole : Represents _ (fill frames (.node color left ptr entry right)) := represents
  refine (whole.findVaLinksLoop nofun).mono fun result after ran => ?_
  obtain ⟨same, path, resultEq, fillEq, along⟩ := ran
  refine ⟨same, path ++ frames, resultEq, place.trans fillEq, fun frame inside => ?_⟩
  exact (mem_append.mp inside).elim (along frame) (around frame)

/-- A range in the middle of an area is taken; the part on its left becomes a new area. -/
theorem Spaces.takeMiddle (spaces : Spaces space trees (cell lva.ptr lva.node + extra))
    (member : ptr ∈ (trees .free).labels) {start stop : UInt64}
    (low : (space.areas ptr).vaStart < start) (middle : start < stop)
    (high : stop < (space.areas ptr).vaEnd) :
    Ensures (do
      Xlinux.setArea lva.ptr ⟨(space.areas ptr).vaStart, start⟩
      Xlinux.setArea ptr ⟨stop, (space.areas ptr).vaEnd⟩
      augmentTreePropagateFrom ptr
      insertVmapAreaAugment lva.ptr ptr) space fun _ after =>
        Carves space after trees extra lva ⟨start, stop⟩ := by
  have unlinked := spaces.toStores.not_mem_of_extra
  have different : ptr ≠ lva.ptr := fun same => unlinked .free (same ▸ member)
  have nodup := (spaces.toStores.represents .free).nodup
  have ordered := spaces.ordered .free
  have before := UInt64.lt_trans low middle
  generalize vaEq : space.areas ptr = va at low high before
  have written := spaces.setArea unlinked ⟨va.vaStart, start⟩
  generalize firstEq : update space.areas lva.ptr ⟨va.vaStart, start⟩ = first at written
  have sameFirst : ∀ node, node ≠ lva.ptr → first node = space.areas node := by
    intro node other
    rw [← firstEq, update_of_ne other]
  have firstPtr : first ptr = va := (sameFirst ptr different).trans vaEq
  refine ensures_modify ?_
  refine ensures_modify ?_
  rw [firstEq]
  have lower : (first ptr).vaStart ≤ stop := firstPtr ▸ UInt64.le_of_lt before
  refine (written.shrink ⟨stop, va.vaEnd⟩ member high lower (firstPtr ▸ UInt64.le_refl _)).bind
    fun _ second ran => ?_
  obtain ⟨next, spacesNext, labels, areas⟩ := ran
  have areas : second.areas = update first ptr ⟨stop, va.vaEnd⟩ := areas
  have nextPtr : second.areas ptr = ⟨stop, va.vaEnd⟩ := by rw [areas, update_self]
  have nextOther : ∀ node, node ≠ ptr → second.areas node = first node := by
    intro node other
    rw [areas, update_of_ne other]
  have nextLeft : second.areas lva.ptr = ⟨va.vaStart, start⟩ := by
    rw [nextOther lva.ptr different.symm, ← firstEq, update_self]
  have inNext : ptr ∈ (update trees .free next .free).labels := labels ▸ member
  have nonempty : (second.areas lva.ptr).vaStart < (second.areas lva.ptr).vaEnd := by
    rw [nextLeft]
    exact low
  have below : (second.areas lva.ptr).vaEnd ≤ (second.areas ptr).vaStart := by
    rw [nextLeft, nextPtr]
    exact UInt64.le_of_lt middle
  refine (spacesNext.insertBeside inNext nonempty below ?_).mono fun _ after ran => ?_
  · intro other inTree early
    have inFree : other ∈ (trees .free).labels := labels ▸ inTree
    have notPtr : other ≠ ptr := by
      rintro rfl
      rw [nextPtr] at early
      exact UInt64.not_lt.mpr early high
    have same : second.areas other = space.areas other := by
      rw [nextOther other notPtr, sameFirst other fun same => unlinked .free (same ▸ inFree)]
    have wide := ordered.nonempty other inFree
    have apart := ordered.apart inFree member notPtr
    rw [vaEq] at apart
    grind
  · obtain ⟨final, earlier, later, spacesFinal, split, labelsFinal, areasFinal⟩ := ran
    rw [update_idem] at spacesFinal
    have split : next.labels = earlier ++ later := split
    refine ⟨final, spacesFinal, fun address => ?_, fun node outside notLeft => ?_⟩
    · have added : cover second.areas final.labels address = cover second.areas [lva.ptr] address +
          cover second.areas next.labels address := by
        rw [labelsFinal, cover_middle, split]
      have moved := cover_update first ⟨stop, va.vaEnd⟩ nodup member address
      have old : cover first (trees .free).labels address =
          cover space.areas (trees .free).labels address :=
        cover_congr fun node inTree => sameFirst node fun same => unlinked .free (same ▸ inTree)
      have cutLeft : (if va.Has address then 1 else 0) = _ := has_split (UInt64.le_of_lt low)
        (UInt64.le_of_lt (UInt64.lt_trans middle high)) address
      have cutRight := has_split (UInt64.le_of_lt middle) (UInt64.le_of_lt high) address
      rw [cover_singleton, cover_singleton, update_self, firstPtr] at moved
      rw [cover_singleton, nextLeft, labels, areas] at added
      rw [areasFinal, areas]
      omega
    · rw [areasFinal, nextOther node (ne_of_mem_of_not_mem member outside).symm,
        sameFirst node notLeft]

/-- What is taken does not depend on what was in the memory for a new area. -/
theorem Taken.of_fresh {after first : VmapSpace} {next : MaxTree} {va : VmapArea}
    (unlinked : lva.ptr ∉ (trees .free).labels)
    (areas : first.areas = update space.areas lva.ptr lva.va)
    (taken : Taken first after trees next lva va) : Taken space after trees next lva va where
  cover address := by
    rw [← taken.cover address, areas]
    exact (cover_congr fun node inTree =>
      update_of_ne (ne_of_mem_of_not_mem inTree unlinked) ..).symm
  others node outside notLeft := by
    rw [taken.others node outside notLeft, areas, update_of_ne notLeft]

/-- A range is taken out of an area, in the way that fits. -/
theorem Spaces.adjustVaToFitType (spaces : Spaces space trees extra)
    (unused : lva.Unused trees extra) (member : ptr ∈ (trees .free).labels)
    (middle : nvaStart < nvaStart + size)
    (inside : ¬(nvaStart < (space.areas ptr).vaStart ∨ nvaStart + size > (space.areas ptr).vaEnd)) :
    Ensures (Xlinux.adjustVaToFitType lva ptr nvaStart size
      (classifyVaFitType (space.areas ptr) nvaStart size)) space fun done after =>
        done = true → Carves space after trees extra lva ⟨nvaStart, nvaStart + size⟩ := by
  rw [classifyVaFitType, if_neg inside]
  simp only [not_or, UInt64.not_lt] at inside
  obtain ⟨low, high⟩ := inside
  refine ensures_get ?_
  split_ifs with atStart atEnd atEnd
  · rw [show (⟨nvaStart, nvaStart + size⟩ : VmapArea) = space.areas ptr by rw [← atEnd, ← atStart]]
    exact ((spaces.takeAll lva member).bind_pure true).mono fun _ _ ran _ => ran.2
  · have split := @has_split nvaStart (nvaStart + size) (space.areas ptr).vaEnd
      (UInt64.le_of_lt middle) high
    have taken := (spaces.takeEnd lva member ⟨nvaStart + size, (space.areas ptr).vaEnd⟩
      ⟨nvaStart, nvaStart + size⟩ (UInt64.lt_of_le_of_ne high (Ne.symm atEnd))
      (UInt64.le_trans low (UInt64.le_of_lt middle)) (UInt64.le_refl _) fun address => by
        rw [← split, ← atStart]).bind_pure true
    rw [bind_assoc] at taken
    dsimp only
    rw [atStart]
    exact taken.mono fun _ _ ran _ => ran.2
  · have split := has_split low (UInt64.le_of_lt middle)
    have taken := (spaces.takeEnd lva member ⟨(space.areas ptr).vaStart, nvaStart⟩
      ⟨nvaStart, nvaStart + size⟩ (UInt64.lt_of_le_of_ne low atStart) (UInt64.le_refl _)
      (UInt64.le_trans (UInt64.le_of_lt middle) high) fun address => by
        rw [add_comm, ← split, ← atEnd]).bind_pure true
    rw [bind_assoc] at taken
    exact taken.mono fun _ _ ran _ => ran.2
  · have start := UInt64.lt_of_le_of_ne low atStart
    have stop := UInt64.lt_of_le_of_ne high (Ne.symm atEnd)
    refine (spaces.kmemCacheAllocArea unused).bind fun left first ran => ?_
    obtain ⟨rfl, _, given⟩ := ran
    split_ifs with present
    · exact ensures_pure nofun
    · obtain ⟨spacesFirst, areas⟩ := given present
      have different : ptr ≠ lva.ptr := fun same => unused.unlinked .free (same ▸ member)
      have same : first.areas ptr = space.areas ptr := by rw [areas, update_of_ne different]
      have taken := (spacesFirst.takeMiddle member (same ▸ start) middle (same ▸ stop)).bind_pure
        true
      simp only [bind_assoc, same] at taken
      refine taken.mono fun done after ran _ => ?_
      obtain ⟨_, next, spacesNext, taken⟩ := ran
      exact ⟨next, spacesNext, taken.of_fresh (unused.unlinked .free) areas⟩

end Adjust

/-! ### Allocation -/

section Allocation

variable {space : VmapSpace} {trees : VmapRoot → MaxTree}
  {extra : NodeCells UInt64} {fresh lva : FreshArea} {request : VmapRequest}
  {vend : UInt64}

theorem Visited.mem_labels {tree : MaxTree} {node : UInt64}
    (visited : Visited request tree node) : node ∈ tree.labels := by
  obtain ⟨_, subtree, rfl, nonempty, rfl, _⟩ := visited
  cases subtree with
  | leaf => exact absurd rfl nonempty
  | node => simp [labels_fill, rootPtr]

/-- `__alloc_vmap_area` takes a range out of the free areas, or returns the end. -/
theorem Spaces.allocVmapBlock (spaces : Spaces space trees extra) (unused : lva.Unused trees extra)
    (positive : 0 < request.size) :
    Ensures (Xlinux.allocVmapBlock lva request vend) space fun addr after =>
      addr = vend ∨ addr < addr + request.size ∧
        Carves space after trees extra lva ⟨addr, addr + request.size⟩ := by
  have free : FreeTree space.areas ⟨space.nodes, space.root .free⟩ (trees .free) :=
    ⟨spaces.toStores.represents .free, ⟨spaces.ordered .free, spaces.summed⟩⟩
  have search : Ensures (findVmapLowestMatch space.areas request) ⟨space.nodes, space.root .free⟩
      fun found after => after = ⟨space.nodes, space.root .free⟩ ∧
        found ∈ (trees .free).labels ∧ request.within (space.areas found) := by
    intro found after ran
    obtain ⟨⟨visited, within⟩, same⟩ := free.findVmapLowestMatch_visited ran
    exact ⟨same, visited.mem_labels, within⟩
  rw [Xlinux.allocVmapBlock]
  refine ensures_get ?_
  refine ensures_onTree_read search fun ptr found => ?_
  obtain ⟨member, within⟩ := found
  split_ifs
  · exact ensures_pure (.inl rfl)
  · dsimp only
    split_ifs
    · exact ensures_pure (.inl rfl)
    · generalize startEq : nvaStartAddr (space.areas ptr) request.align request.vstart = nvaStart
      rw [VmapRequest.within, isWithinThisVa_iff, startEq] at within
      have room : nvaStart.toNat + request.size.toNat < 2 ^ 64 :=
        lt_of_le_of_lt within.1 (space.areas ptr).vaEnd.toNat_lt
      have middle : nvaStart < nvaStart + request.size := by
        rw [lt_iff_toNat_lt, toNat_add_of_lt room]
        exact Nat.lt_add_of_pos_right (lt_iff_toNat_lt.mp positive)
      refine ensures_bugOn fun fits => ?_
      refine (spaces.adjustVaToFitType unused member middle fun outside => ?_).bind
        fun done after taken => ?_
      · rw [classifyVaFitType, if_pos outside] at fits
        cases fits
      cases done with
      | true => exact ensures_pure (.inr ⟨middle, taken rfl⟩)
      | false => exact ensures_pure (.inl rfl)

/-- `insert_vmap_area` links a new area into the busy tree. -/
theorem Spaces.insertVmapArea {node : UInt64}
    (spaces : Spaces space trees (cell node record + extra))
    (nonempty : (space.areas node).vaStart < (space.areas node).vaEnd) :
    Ensures (Xlinux.insertVmapArea node) space fun _ after =>
      Inserted space after trees extra .busy node := by
  rw [Xlinux.insertVmapArea]
  refine ensures_get ?_
  refine ensures_onTree_read (spaces.toStores.represents .busy).findVaLinks ?_
  rintro _ ⟨frames, rfl, place, apart⟩
  exact spaces.linkBusy apart nonempty place

/-- A node that is not linked is written. -/
theorem Spaces.modifyExtra {node : UInt64} (spaces : Spaces space trees (cell node record + extra))
    (change : RbNode UInt64 → RbNode UInt64) :
    Ensures (onTree .busy (modifyNode node change)) space fun _ after =>
      Kept space after ∧ Spaces after trees (cell node (change record) + extra) := by
  have holds := spaces.toStores.holds .busy
  refine (spaces.toStores.onTree .busy ((acts_modifyNode node change record).at_third holds)).mono
    fun _ after ran => ?_
  obtain ⟨_, kept, stores⟩ := ran
  rw [update_eq_self] at stores
  exact ⟨kept, {
    toStores := stores
    list := fun which => kept.list ▸ spaces.list which
    valid := spaces.valid
    ordered := fun which => kept.areas ▸ spaces.ordered which
    summed := kept.areas ▸ spaces.summed }⟩

/-- What an allocation does: a range that was free becomes a busy area. -/
structure Allocated (space after : VmapSpace) (trees next : VmapRoot → MaxTree)
    (ptr : UInt64) (va : VmapArea) : Prop where
  covered : ∀ address,
    cover after.areas (next .free).labels address + cover after.areas (next .busy).labels address =
      cover space.areas (trees .free).labels address + cover space.areas
        (trees .busy).labels address
  wasFree : ∀ address, va.Has address → 1 ≤ cover space.areas (trees .free).labels address
  linked : ptr ∈ (next .busy).labels
  area : after.areas ptr = va
  others : ∀ node ∈ (trees .busy).labels,
    node ∈ (next .busy).labels ∧ after.areas node = space.areas node

theorem Allocated.congr {first after : VmapSpace} {next : VmapRoot → MaxTree} {busy : MaxTree}
    {ptr : UInt64} {va : VmapArea} (allocated : Allocated space first trees next ptr va)
    (kept : Kept first after) (labels : busy.labels = (next .busy).labels) :
    Allocated space after trees (update next .busy busy) ptr va where
  covered address := by
    show cover after.areas (next .free).labels address + cover after.areas busy.labels address = _
    rw [labels, kept.areas]
    exact allocated.covered address
  wasFree := allocated.wasFree
  linked := labels ▸ allocated.linked
  area := kept.areas ▸ allocated.area
  others node inBusy := by
    show node ∈ busy.labels ∧ _
    rw [labels, kept.areas]
    exact allocated.others node inBusy

/-- A range is taken and becomes the area of a new node. -/
theorem allocated_of_taken {first second after : VmapSpace} {free busy : MaxTree}
    {va : VmapArea} {before later : List UInt64} (stores : Stores space trees extra)
    (unlinked : ∀ which, fresh.ptr ∉ (trees which).labels) (outside : fresh.ptr ∉ free.labels)
    (leftUnlinked : lva.ptr ∉ (trees .busy).labels)
    (areasFirst : first.areas = update space.areas fresh.ptr fresh.va)
    (taken : Taken first second trees free lva va)
    (areas : after.areas = update second.areas fresh.ptr va)
    (split : (trees .busy).labels = before ++ later)
    (labels : busy.labels = before ++ fresh.ptr :: later) :
    Allocated space after trees (update (update trees .free free) .busy busy) fresh.ptr va := by
  have sameFirst : ∀ node, node ≠ fresh.ptr → first.areas node = space.areas node := by
    intro node other
    rw [areasFirst, update_of_ne other]
  have sameLast : ∀ node, node ≠ fresh.ptr → after.areas node = second.areas node := by
    intro node other
    rw [areas, update_of_ne other]
  have area : after.areas fresh.ptr = va := by rw [areas, update_self]
  have sameBusy : ∀ node ∈ (trees .busy).labels, after.areas node = space.areas node := by
    intro node inBusy
    have notFresh : node ≠ fresh.ptr := fun same => unlinked .busy (same ▸ inBusy)
    have notLeft : node ≠ lva.ptr := fun same => leftUnlinked (same ▸ inBusy)
    have notFree : node ∉ (trees .free).labels := fun inFree =>
      stores.not_mem_busy inFree inBusy rfl
    rw [sameLast node notFresh, taken.others node notFree notLeft, sameFirst node notFresh]
  have oldFree : ∀ address, cover first.areas (trees .free).labels address =
      cover space.areas (trees .free).labels address := fun address =>
    cover_congr fun node inFree => sameFirst node fun same => unlinked .free (same ▸ inFree)
  constructor
  case covered =>
    intro address
    have newFree : cover after.areas free.labels address = cover second.areas free.labels address :=
      cover_congr fun node inFree => sameLast node fun same => outside (same ▸ inFree)
    have newBusy : cover after.areas (trees .busy).labels address =
        cover space.areas (trees .busy).labels address := cover_congr sameBusy
    have cut := taken.cover address
    show cover after.areas free.labels address + cover after.areas busy.labels address = _
    rw [oldFree] at cut
    rw [split] at newBusy ⊢
    rw [labels, cover_middle, cover_singleton, area]
    omega
  case wasFree =>
    intro address inside
    rw [← oldFree, taken.cover, if_pos inside]
    exact Nat.le_add_right ..
  case linked =>
    simp [labels]
  case area => exact area
  case others =>
    intro node inBusy
    refine ⟨?_, sameBusy node inBusy⟩
    show node ∈ busy.labels
    grind

/-- `alloc_vmap_area` returns a new busy area with an aligned range, or nothing. -/
theorem Spaces.allocVmapArea (spaces : Spaces space trees extra)
    (unusedFresh : fresh.Unused trees extra)
    (unusedLeft : lva.Unused trees extra) (different : fresh.ptr ≠ 0 → lva.ptr ≠ fresh.ptr)
    (positive : 0 < request.size) :
    Ensures (Xlinux.allocVmapArea fresh lva request vend) space fun result after =>
      match result with
      | none => after = space
      | some ptr => ptr = fresh.ptr ∧ ∃ addr next, Spaces after next extra ∧
          Allocated space after trees next ptr ⟨addr, addr + request.size⟩ ∧
          addr < addr + request.size ∧ isAligned addr request.align ∧ request.vstart ≤ addr ∧
          addr + request.size ≤ vend := by
  rw [Xlinux.allocVmapArea]
  refine ensures_get ?_
  split_ifs
  · exact ensures_pure rfl
  · refine (spaces.kmemCacheAllocArea unusedFresh).bind fun ptr first ran => ?_
    obtain ⟨rfl, null, given⟩ := ran
    split_ifs with zero
    · exact ensures_pure (null zero)
    · obtain ⟨spacesFirst, areasFirst⟩ := given zero
      have unused : lva.Unused trees (cell fresh.ptr fresh.node + extra) := {
        usable := unusedLeft.usable
        unlinked := unusedLeft.unlinked
        outside := by
          simp only [cell, Multiset.map_add, Multiset.map_singleton, Multiset.mem_add,
            Multiset.mem_singleton, not_or]
          exact ⟨different zero, unusedLeft.outside⟩ }
      refine (spacesFirst.allocVmapBlock unused positive).bind fun addr second ran => ?_
      split_ifs with notEnd
      · exact ensures_throw
      · obtain ⟨wide, free, spacesSecond, taken⟩ := ran.resolve_left notEnd
        have unlinked := spacesSecond.toStores.not_mem_of_extra
        refine ensures_modify ?_
        have spacesThird := spacesSecond.setArea unlinked ⟨addr, addr + request.size⟩
        refine (spacesThird.modifyExtra _).bind fun _ fourth ran => ?_
        obtain ⟨kept, spacesFourth⟩ := ran
        have nonempty : (fourth.areas fresh.ptr).vaStart < (fourth.areas fresh.ptr).vaEnd := by
          have area : fourth.areas fresh.ptr = ⟨addr, addr + request.size⟩ := by
            rw [kept.areas]
            exact update_self ..
          rw [area]
          exact wide
        refine (spacesFourth.insertVmapArea nonempty).bind fun _ after ran => ?_
        obtain ⟨busy, _, _, spacesAfter, split, labels, areas⟩ := ran
        have allocated := allocated_of_taken spaces.toStores unusedFresh.unlinked (unlinked .free)
          (unusedLeft.unlinked .busy) areasFirst taken (areas.trans kept.areas) split labels
        refine ensures_bugOn fun aligned => ensures_bugOn fun low => ensures_bugOn fun high => ?_
        refine ensures_pure ⟨rfl, addr, _, spacesAfter, allocated, wide, ?_, ?_, ?_⟩
        · simpa using aligned
        · simpa using low
        · simpa using high

end Allocation

/-! ### Areas that are handed out -/

/-- An area that is handed out is aligned as its size and flags ask for, and in the range for such
areas. -/
structure VmStruct.Placed (vm : VmStruct) : Prop where
  aligned : (vmAlign vm.size 1 vm.flags).toNat ∣ vm.addr.toNat
  low : vmallocStart.toNat ≤ vm.addr.toNat
  high : vm.addr.toNat + vm.size.toNat ≤ vmallocEnd.toNat

/-- Two areas have no address in common. -/
def VmStruct.Disjoint (one other : VmStruct) : Prop :=
  one.addr.toNat + one.size.toNat ≤ other.addr.toNat ∨
    other.addr.toNat + other.size.toNat ≤ one.addr.toNat

section Areas

variable {space : VmapSpace} {trees : VmapRoot → MaxTree}
  {extra : NodeCells UInt64} {call : VmapCall}

/-- `setup_vmalloc_vm` writes to a node of the busy tree. -/
theorem Spaces.setVm {ptr : UInt64} (spaces : Spaces space trees extra)
    (member : ptr ∈ (trees .busy).labels) (area : UInt64) :
    Ensures (onTree .busy (modifyNode ptr fun rb => { rb with entry := area })) space fun _ after =>
      Kept space after ∧ ∃ next, Spaces after (update trees .busy next) extra ∧
        next.labels = (trees .busy).labels := by
  obtain ⟨frames, color, left, entry, right, place⟩ := exists_fill_of_mem_labels member
  have holds := spaces.toStores.holds .busy
  have valid := spaces.valid .busy
  rw [place] at holds valid
  have labels : (fill frames (.node color left ptr area right)).labels = (trees .busy).labels := by
    rw [place, labels_fill, labels_fill, labels_node, labels_node]
  refine (spaces.toStores.onTree .busy (holds.setEntry area)).mono fun _ after ran => ?_
  obtain ⟨_, kept, stores⟩ := ran
  refine ⟨kept, _, spaces.of_tree .busy stores ?_ (congrFun kept.list .free)
    (valid_fill_entry valid area) ?_ (fun node _ => congrFun kept.areas node) ?_, labels⟩
  · rw [kept.list, labels]
    exact spaces.list .busy
  · rw [kept.areas, labels]
    exact spaces.ordered .busy
  · rw [kept.areas]
    exact spaces.summed

theorem exists_vmAlign_eq (size flags : UInt64) :
    ∃ shift, (vmAlign size 1 flags).toNat = 2 ^ shift := by
  unfold vmAlign
  split_ifs
  · exact ⟨_, toNat_oneShl (by unfold ioremapMaxOrder; omega)⟩
  · exact ⟨0, rfl⟩

theorem dvd_of_isAligned {x align : UInt64} {shift : Nat} (power : align.toNat = 2 ^ shift)
    (aligned : isAligned x align = true) : align.toNat ∣ x.toNat := by
  have mask : (align - 1).toNat = 2 ^ shift - 1 := power ▸ toNat_mask power
  have low := congrArg toNat (of_decide_eq_true aligned)
  rw [toNat_and_mask x mask] at low
  rw [power]
  exact Nat.dvd_of_mod_eq_zero low

/-- `get_vm_area` hands out an area that was free, or nothing. -/
theorem Spaces.getVmArea (spaces : Spaces space trees extra)
    (unusedFresh : call.va.Unused trees extra) (unusedLeft : call.lva.Unused trees extra)
    (different : call.va.ptr ≠ 0 → call.lva.ptr ≠ call.va.ptr) :
    Ensures (Xlinux.getVmArea call) space fun result after =>
      match result with
      | none => after = space
      | some vm => vm.Placed ∧ vm.addr < vm.addr + vm.size ∧ ∃ next, Spaces after next extra ∧
          Allocated space after trees next call.va.ptr ⟨vm.addr, vm.addr + vm.size⟩ := by
  rw [Xlinux.getVmArea, getVmAreaNode]
  split
  case isTrue => exact ensures_pure rfl
  case isFalse nonzero =>
    split_ifs
    · exact ensures_pure rfl
    · have positive : 0 < pageAlign call.size := UInt64.pos_iff_ne_zero.mpr nonzero
      refine (spaces.allocVmapArea unusedFresh unusedLeft different positive).bind
        fun result first ran => ?_
      cases result with
      | none => exact ensures_pure ran
      | some ptr =>
        obtain ⟨rfl, addr, next, spacesNext, allocated, wide, aligned, low, high⟩ := ran
        have size : addr + pageAlign call.size - addr = pageAlign call.size := by
          rw [UInt64.add_comm, UInt64.add_sub_cancel]
        refine ensures_get ?_
        refine (spacesNext.setVm allocated.linked call.area).bind fun _ after ran => ?_
        obtain ⟨kept, _, spacesAfter, labels⟩ := ran
        rw [allocated.area]
        refine ensures_pure ?_
        rw [size]
        obtain ⟨_, power⟩ := exists_vmAlign_eq (pageAlign call.size) call.flags
        have stop : (addr + pageAlign call.size).toNat = addr.toNat + (pageAlign call.size).toNat :=
          toNat_add_of_lt_self wide
        refine ⟨⟨dvd_of_isAligned power aligned, le_iff_toNat_le.mp low, ?_⟩, wide, _,
          spacesAfter, allocated.congr kept labels⟩
        exact stop ▸ le_iff_toNat_le.mp high

end Areas

/-! ### Runs of calls -/

/-- The areas, and what has been handed out. -/
structure VmapUsers where
  space : VmapSpace
  granted : List VmStruct

/-- The allocator hands out memory that is not in use. -/
def FreshArea.Allowed (fresh : FreshArea) (space : VmapSpace) : Prop :=
  fresh.ptr ≠ 0 → Usable fresh.ptr ∧ fresh.ptr ∉ space.list .free ∧ fresh.ptr ∉ space.list .busy

/-- What a call may be given. -/
def VmapCall.Allowed (call : VmapCall) (space : VmapSpace) : Prop :=
  call.va.Allowed space ∧ call.lva.Allowed space ∧ (call.va.ptr ≠ 0 → call.lva.ptr ≠ call.va.ptr)

instance (call : VmapCall) (space : VmapSpace) : Decidable (call.Allowed space) :=
  inferInstanceAs (Decidable ((_ → _ ∧ _ ∧ _) ∧ (_ → _ ∧ _ ∧ _) ∧ (_ → _)))

/-- One call of `get_vm_area`. -/
def vmapCall (users : VmapUsers) (call : VmapCall) : Except Halt VmapUsers :=
  if call.Allowed users.space then
    match getVmArea call users.space with
    | .ok (none, space) => .ok { users with space }
    | .ok (some vm, space) => .ok ⟨space, vm :: users.granted⟩
    | .error fault => .error (.fault fault)
  else .error .misuse

/-- Nothing is linked yet. -/
def blankSpace (areas : VmapAreas) (nodes : UInt64 → RbNode UInt64) : VmapSpace :=
  ⟨areas, nodes, fun _ => 0, fun _ => [], false⟩

/-- The free and the busy areas cut the address space up, and what was handed out is apart. -/
structure Consistent (users : VmapUsers) (trees : VmapRoot → MaxTree) : Prop
    extends Spaces users.space trees 0 where
  covered : ∀ address, cover users.space.areas (trees .free).labels address +
    cover users.space.areas (trees .busy).labels address =
      if 1 ≤ address ∧ address < 2 ^ 64 - 1 then 1 else 0
  held : ∀ vm ∈ users.granted, ∃ node ∈ (trees .busy).labels,
    users.space.areas node = ⟨vm.addr, vm.addr + vm.size⟩
  placed : ∀ vm ∈ users.granted, vm.Placed
  apart : users.granted.Pairwise VmStruct.Disjoint

section Runs

variable {users : VmapUsers} {trees : VmapRoot → MaxTree} {space : VmapSpace}

theorem Spaces.unused {fresh : FreshArea} (spaces : Spaces space trees 0)
    (allowed : fresh.Allowed space) : fresh.Unused trees 0 where
  usable present := (allowed present).1
  unlinked which member := by
    have present : fresh.ptr ≠ 0 := by
      obtain ⟨_, _, _, _, _, place⟩ := exists_fill_of_mem_labels member
      have represents := spaces.toStores.represents which
      rw [place] at represents
      exact represents.at_place.ne
    rw [← spaces.list which] at member
    cases which with
    | free => exact (allowed present).2.1 member
    | busy => exact (allowed present).2.2 member
  outside := by simp

theorem VmStruct.Placed.toNat_stop {vm : VmStruct} (placed : vm.Placed) :
    (vm.addr + vm.size).toNat = vm.addr.toNat + vm.size.toNat :=
  toNat_add_of_lt (Nat.lt_of_le_of_lt placed.high vmallocEnd.toNat_lt)

/-- A range that was free is apart from what was handed out before. -/
theorem Consistent.disjoint {after : VmapSpace} {next : VmapRoot → MaxTree} {ptr : UInt64}
    {vm other : VmStruct} (consistent : Consistent users trees) (placed : vm.Placed)
    (wide : vm.addr < vm.addr + vm.size)
    (allocated : Allocated users.space after trees next ptr ⟨vm.addr, vm.addr + vm.size⟩)
    (member : other ∈ users.granted) : vm.Disjoint other := by
  obtain ⟨node, linked, area⟩ := consistent.held other member
  have stop := placed.toNat_stop
  have otherStop := (consistent.placed other member).toNat_stop
  have nonempty := (consistent.ordered .busy).nonempty node linked
  rw [area, lt_iff_toNat_lt] at nonempty
  rw [lt_iff_toNat_lt] at wide
  by_contra overlap
  obtain ⟨_, _⟩ := not_or.mp overlap
  obtain ⟨address, inNew, inOld⟩ : ∃ address, VmapArea.Has ⟨vm.addr, vm.addr + vm.size⟩ address ∧
      VmapArea.Has ⟨other.addr, other.addr + other.size⟩ address := by
    refine ⟨max vm.addr.toNat other.addr.toNat, ?_, ?_⟩ <;> grind [VmapArea.Has]
  have busy : 1 ≤ cover users.space.areas (trees .busy).labels address := by
    rw [cover_erase linked, cover_singleton, area, if_pos inOld]
    exact Nat.le_add_right ..
  have free := allocated.wasFree address inNew
  have total := consistent.covered address
  split at total <;> omega

/-- A call keeps all of this. -/
theorem Consistent.vmapCall {after : VmapUsers} {call : VmapCall}
    (consistent : Consistent users trees)
    (ran : Xlinux.vmapCall users call = .ok after) : ∃ next, Consistent after next := by
  rw [Xlinux.vmapCall] at ran
  split_ifs at ran with allowed
  have step := consistent.toSpaces.getVmArea (consistent.toSpaces.unused allowed.1)
    (consistent.toSpaces.unused allowed.2.1) allowed.2.2
  split at ran
  case h_1 space returned =>
    cases ran
    exact ⟨trees, step none space returned ▸ consistent⟩
  case h_2 vm space returned =>
    cases ran
    obtain ⟨placed, wide, next, spaces, allocated⟩ := step (some vm) space returned
    refine ⟨next, { spaces with
      covered := fun address => (allocated.covered address).trans (consistent.covered address)
      held := forall_mem_cons.mpr ⟨⟨_, allocated.linked, allocated.area⟩, fun one earlier => ?_⟩
      placed := forall_mem_cons.mpr ⟨placed, consistent.placed⟩
      apart := pairwise_cons.mpr ⟨fun other member =>
        consistent.disjoint placed wide allocated member, consistent.apart⟩ }⟩
    obtain ⟨node, linked, area⟩ := consistent.held one earlier
    obtain ⟨still, same⟩ := allocated.others node linked
    exact ⟨node, still, same.trans area⟩
  case h_3 => cases ran

theorem spaces_blankSpace (areas : VmapAreas) (nodes : UInt64 → RbNode UInt64) :
    Spaces (blankSpace areas nodes) (fun _ => .leaf) 0 where
  owns := ⟨by simp [treeCells], by simp [treeCells], by simp [treeCells]⟩
  root _ := rfl
  list _ := rfl
  valid _ := ⟨rfl, trivial, 0, rfl⟩
  ordered _ := ⟨List.Pairwise.nil, nofun⟩
  summed := trivial

/-- After `init_module`, everything is free. -/
theorem consistent_vmaInit {free : FreshArea} (usable : Usable free.ptr) (areas : VmapAreas)
    (nodes : UInt64 → RbNode UInt64) :
    Ensures (vmaInit free) (blankSpace areas nodes) fun _ start =>
      ∃ trees, Consistent ⟨start, []⟩ trees := by
  have blank := spaces_blankSpace areas nodes
  have unused :
      FreshArea.Unused { free with va := ⟨0, 0⟩, node := ⟨0, 0, 0, 0⟩ } (fun _ => .leaf) 0 :=
    ⟨fun _ => usable, fun _ => not_mem_nil, by simp⟩
  have freed : Ensures (vmapInitFreeSpace free) (blankSpace areas nodes) fun _ after =>
      ∃ trees, Spaces after trees 0 ∧ ∀ address, cover after.areas (trees .free).labels address +
        cover after.areas (trees .busy).labels address =
          if 1 ≤ address ∧ address < 2 ^ 64 - 1 then 1 else 0 := by
    rw [vmapInitFreeSpace]
    refine (blank.kmemCacheAllocArea unused).bind fun ptr first ran => ?_
    obtain ⟨rfl, _, given⟩ := ran
    rw [if_neg usable.1]
    obtain ⟨spaces, _⟩ := given usable.1
    have written := spaces.setArea unused.unlinked ⟨1, 0xffffffffffffffff⟩
    refine ensures_modify ?_
    have area : update first.areas free.ptr ⟨1, 0xffffffffffffffff⟩ free.ptr =
        ⟨1, 0xffffffffffffffff⟩ := update_self ..
    refine (written.insertFree ?_ (written.toStores.represents .free).findVaLinks).mono
      fun _ after ran => ?_
    · show (update first.areas free.ptr _ free.ptr).vaStart <
        (update first.areas free.ptr _ free.ptr).vaEnd
      rw [area]
      decide
    · obtain ⟨next, _, _, spacesNext, split, labels, areasAfter⟩ := ran
      refine ⟨_, spacesNext, fun address => ?_⟩
      show cover after.areas next.labels address + 0 = _
      rw [labels, cover_middle, ← split, cover_singleton, areasAfter]
      show (if (update first.areas free.ptr _ free.ptr).Has address then 1 else 0) + 0 + 0 = _
      rw [area]
      rfl
  rw [vmaInit]
  refine freed.bind fun _ first ran => ?_
  obtain ⟨trees, spaces, covered⟩ := ran
  refine ensures_modify_last ⟨trees, ?_⟩
  exact { spaces with covered := covered, held := nofun, placed := nofun, apart :=
    List.Pairwise.nil }

end Runs

/-- Whatever is asked for, as long as the kernel does not stop: the free and the busy areas together
cut up the address space, the free list is the free tree read from left to right and in order, the
nodes of the free tree have the maxima of their subtrees, and the areas handed out are aligned, in
the range for them and apart from each other. -/
theorem vmapCall_run_partition (areas : VmapAreas) (nodes : UInt64 → RbNode UInt64)
    (free : FreshArea) (usable : Usable free.ptr) (start : VmapSpace)
    (started : vmaInit free (blankSpace areas nodes) = .ok ((), start)) (calls : List VmapCall)
    (users : VmapUsers) (ran : Run.run vmapCall ⟨start, []⟩ calls = .ok users) :
    ∃ freeTree busyTree : Tree UInt64 UInt64,
      Represents ⟨users.space.nodes, users.space.root .free⟩ freeTree ∧
      Represents ⟨users.space.nodes, users.space.root .busy⟩ busyTree ∧
      (∀ address, cover users.space.areas (freeTree.labels ++ busyTree.labels) address =
        if 1 ≤ address ∧ address < 2 ^ 64 - 1 then 1 else 0) ∧
      users.space.list .free = freeTree.labels ∧
      Ordered users.space.areas freeTree.labels ∧
      Summed (maxOver (sizeAt users.space.areas)) freeTree ∧
      (∀ vm ∈ users.granted, vm.Placed) ∧ users.granted.Pairwise VmStruct.Disjoint := by
  obtain ⟨trees, consistent⟩ := consistent_vmaInit usable areas nodes () start started
  have preserved : ∀ users call next, (∃ trees, Consistent users trees) →
      vmapCall users call = .ok next → ∃ trees, Consistent next trees :=
    fun _ _ _ ⟨_, consistent⟩ ran => consistent.vmapCall ran
  obtain ⟨trees, consistent⟩ := Run.run_invariant preserved ⟨trees, consistent⟩ ran
  refine ⟨trees .free, trees .busy, consistent.toStores.represents .free,
    consistent.toStores.represents .busy, fun address => ?_, consistent.list .free,
    consistent.ordered .free, consistent.summed, consistent.placed, consistent.apart⟩
  rw [cover_append]
  exact consistent.covered address

/-- An area of one page is asked for, and then an aligned one for a device. -/
def twoCalls : List VmapCall :=
  [⟨256, 0, 8, ⟨128, ⟨0, 0⟩, ⟨0, 0, 0, 0⟩⟩, ⟨192, ⟨0, 0⟩, ⟨0, 0, 0, 7⟩⟩⟩,
    ⟨8192, 1, 16, ⟨256, ⟨0, 0⟩, ⟨0, 0, 0, 0⟩⟩, ⟨320, ⟨0, 0⟩, ⟨0, 0, 0, 9⟩⟩⟩]

/-- Calls after `init_module` with a node at 64. -/
def runFrom (calls : List VmapCall) : Except Halt (VmapSpace × VmapUsers) := do
  match vmaInit ⟨64, ⟨0, 0⟩, ⟨0, 0, 0, 0⟩⟩ (blankSpace (fun _ => ⟨0, 0⟩) fun _ => ⟨0, 0, 0, 0⟩) with
  | .ok (_, start) => return (start, ← Run.run vmapCall ⟨start, []⟩ calls)
  | .error fault => .error (.fault fault)

theorem vmapCall_run_partition_twoCalls :
    ∃ start users, ∃ freeTree busyTree : Tree UInt64 UInt64, vmaInit ⟨64, ⟨0, 0⟩, ⟨0, 0, 0, 0⟩⟩
        (blankSpace (fun _ => ⟨0, 0⟩) fun _ => ⟨0, 0, 0, 0⟩) = .ok ((), start) ∧
      Run.run vmapCall ⟨start, []⟩ twoCalls = .ok users ∧
      users.granted = [⟨0xffffffd000002000, 8192, 1⟩, ⟨0xffffffd000000000, 4096, 0⟩] ∧
      (∀ address, cover users.space.areas (freeTree.labels ++ busyTree.labels) address =
        if 1 ≤ address ∧ address < 2 ^ 64 - 1 then 1 else 0) ∧
      Summed (maxOver (sizeAt users.space.areas)) freeTree := by
  have granted : (runFrom twoCalls).map (·.2.granted) =
      .ok [⟨0xffffffd000002000, 8192, 1⟩, ⟨0xffffffd000000000, 4096, 0⟩] := by decide +kernel
  obtain ⟨⟨start, users⟩, returned, granted⟩ := exists_ok_of_map granted
  rw [runFrom] at returned
  split at returned
  case h_2 => cases returned
  case h_1 started =>
    cases ran : Run.run vmapCall ⟨_, []⟩ twoCalls <;> rw [ran] at returned <;> cases returned
    obtain ⟨freeTree, busyTree, _, _, covered, _, _, summed, _⟩ := vmapCall_run_partition _ _ _
      (by decide) start started twoCalls users ran
    exact ⟨start, users, freeTree, busyTree, started, ran, granted, covered, summed⟩

end Xlinux
