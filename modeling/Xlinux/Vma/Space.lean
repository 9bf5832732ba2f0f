/-
This file follows the free and the busy areas through `get_vm_area`. Memory has
two trees at once, and the nodes of areas that are not linked yet. Each step says
what it does to the trees; at the end the areas of both trees cut the address
space up, and the new area is in the range that was asked for.
-/

import Xlinux.Vma.Search
import Xlinux.Lib.Ensures

namespace Xlinux

open RedBlack Cells Hoare List
open Function

/-! ### Places for new areas -/

section Links

variable {areas : VmapAreas} {va : VmapArea} {memory : RbTree UInt64}
  {frames : List MaxFrame} {tree : MaxTree} {node : UInt64}

theorem apart_of_vaSide {frame : MaxFrame}
    (found : vaSide va (areas frame.label) = some frame.side) : Apart areas va frame := by
  unfold vaSide at found
  split_ifs at found with left right
  · rw [Apart, ← Option.some.inj found]
    exact left.2
  · rw [Apart, ← Option.some.inj found]
    exact right.2

/-- The loop of `find_va_links` goes down to a place where there is nothing. -/
theorem Represents.findVaLinksLoop {turns : Nat} (represents : Represents memory (fill frames tree))
    (nonempty : tree ≠ .leaf) :
    Ensures (Xlinux.findVaLinksLoop areas va turns (rootPtr tree)) memory fun result after =>
      after = memory ∧ ∃ path, result = (parentOf 0 (path ++ frames), linkOf (path ++ frames)) ∧
        fill frames tree = fill (path ++ frames) .leaf ∧ ∀ frame ∈ path, Apart areas va frame := by
  induction turns generalizing frames tree with
  | zero => exact ensures_throw
  | succ turns ih =>
    rw [findVaLinksLoop]
    cases found : vaSide va (areas (rootPtr tree)) with
    | none => exact ensures_throw
    | some side =>
      obtain ⟨color, label, entry, whole⟩ := Tree.eq_join_of_ne_leaf side nonempty
      have root : rootPtr tree = label := by rw [whole, rootPtr_join]
      generalize frameEq : (⟨side, color, label, entry, tree.child side.other⟩ : MaxFrame) = frame
      have plug : tree = frame.plug (tree.child side) := frameEq ▸ whole
      have apart : Apart areas va frame := apart_of_vaSide (frameEq ▸ root ▸ found)
      have place : Represents memory (fill (frame :: frames) (tree.child side)) := by
        rwa [fill, ← plug]
      intro result after ran
      dsimp only at ran
      rw [read_bind (represents.rbChild nonempty side)] at ran
      split_ifs at ran with more
      · have child : tree.child side ≠ .leaf := by
          intro empty
          rw [empty] at more
          exact more rfl
        obtain ⟨same, path, resultEq, fillEq, along⟩ := ih place child _ _ ran
        refine ⟨same, path ++ [frame], ?_, ?_, ?_⟩
        · rw [resultEq, append_assoc, singleton_append]
        · rw [append_assoc, singleton_append, ← fillEq, fill, ← plug]
        · exact forall_mem_append.mpr ⟨along, forall_mem_singleton.mpr apart⟩
      · have empty : tree.child side = .leaf := place.eq_leaf (not_not.mp more)
        cases ran
        refine ⟨rfl, [frame], ?_, ?_, forall_mem_singleton.mpr apart⟩
        · rw [singleton_append, parentOf, linkOf, ← frameEq, root]
        · rw [singleton_append, fill, ← empty, ← plug]

/-- `find_va_links` from the root. -/
theorem Represents.findVaLinks (represents : Represents memory tree) :
    Ensures (Xlinux.findVaLinks areas va 0) memory fun result after =>
      after = memory ∧ ∃ frames, result = (parentOf 0 frames, linkOf frames) ∧
        tree = fill frames .leaf ∧ ∀ frame ∈ frames, Apart areas va frame := by
  have place : Represents memory (fill [] tree) := represents
  refine ensures_get ?_
  dsimp only
  split_ifs with empty
  · exact ensures_pure ⟨rfl, [], rfl, place.eq_leaf (represents.root.symm.trans empty), nofun⟩
  · have nonempty : tree ≠ .leaf := by
      rintro rfl
      exact empty represents.root
    rw [represents.root]
    refine (place.findVaLinksLoop nonempty).mono fun result after found => ?_
    obtain ⟨same, path, resultEq, fillEq, along⟩ := found
    rw [append_nil] at resultEq fillEq
    exact ⟨same, path, resultEq, fillEq, along⟩

/-- The list gets the area where the tree gets it. -/
theorem Represents.listAdd (represents : Represents memory (fill frames .leaf)) (node : UInt64) :
    Xlinux.listAdd node (parentOf 0 frames) (linkOf frames) (fill frames .leaf).labels =
      labelsBefore frames ++ node :: labelsAfter frames := by
  have inserted : (insertAt (node, (0 : UInt64)) (fill frames .leaf).inorder (linkOf frames)).map
      Prod.fst = labelsBefore frames ++ node :: labelsAfter frames := by
    rw [insertAt_linkOf represents.nodup, map_append]
    rfl
  refine Eq.trans ?_ inserted
  cases frames with
  | nil => rfl
  | cons frame rest =>
    have holds : Holds memory _ _ := represents
    rw [treeCells_fill] at holds
    have nonzero : frame.label ≠ 0 := holds.label_ne_zero frame mem_cons_self
    rw [listAdd, parentOf, if_pos nonzero, linkOf, insertAt, map_flatMap, Tree.labels,
      flatMap_map]
    refine flatMap_congr fun one _ => ?_
    by_cases same : one.1 = frame.label
    · rw [if_pos same, if_pos same]
      cases frame.side <;> simp
    · rw [if_neg same, if_neg same]
      rfl

end Links

/-! ### Two trees in memory -/

/-- Memory has both trees, and some nodes besides. -/
structure Stores (space : VmapSpace) (trees : VmapRoot → MaxTree)
    (extra : NodeCells UInt64) : Prop where
  owns : Owns Usable space.nodes (treeCells 0 (trees .free) + (treeCells 0 (trees .busy) + extra))
  root : ∀ which, space.root which = rootPtr (trees which)

/-- What work on a tree leaves as it is. -/
structure Kept (space after : VmapSpace) : Prop where
  areas : after.areas = space.areas
  list : after.list = space.list

theorem Kept.trans {space middle after : VmapSpace} (first : Kept space middle)
    (second : Kept middle after) : Kept space after :=
  ⟨second.areas.trans first.areas, second.list.trans first.list⟩

section Stores

variable {space : VmapSpace} {trees : VmapRoot → MaxTree}
  {extra left : NodeCells UInt64} {which : VmapRoot} {β : Type} {value : β}
  {code : RbM UInt64 β} {next : MaxTree}

section

/-- Work on a tree that only reads it. -/
theorem ensures_onTree_read {γ : Type} {post : β → Prop} {rest : β → VmapM γ}
    {final : γ → VmapSpace → Prop}
    (ran : Ensures code ⟨space.nodes, space.root which⟩ fun result after =>
      after = ⟨space.nodes, space.root which⟩ ∧ post result)
    (next : ∀ result, post result → Ensures (rest result) space final) :
    Ensures (onTree which code >>= rest) space final := by
  refine Ensures.bind (fun result after same => ?_) fun result after (ran : after = space ∧
    post result) =>
    ran.1 ▸ next result ran.2
  rw [onTree] at same
  obtain ⟨⟨returned, tree⟩, codeRan, rest⟩ := Kernel.bind_ok.mp same
  obtain ⟨unchanged, holds⟩ := ran returned tree codeRan
  cases rest
  rw [unchanged, update_eq_self]
  exact ⟨rfl, holds⟩

variable (stores : Stores space trees extra)

include stores

theorem Stores.holds (which : VmapRoot) :
    HoldsTree ⟨space.nodes, space.root which⟩ (trees which)
      (treeCells 0 (trees which.other) + extra) := by
  refine ⟨?_, stores.root which⟩
  cases which with
  | free => exact stores.owns
  | busy =>
    have owns := stores.owns
    rwa [add_left_comm] at owns

theorem Stores.represents (which : VmapRoot) :
    Represents ⟨space.nodes, space.root which⟩ (trees which) :=
  ⟨(stores.holds which).owns.part, stores.root which⟩

theorem Stores.congr (after : VmapSpace) (nodes : after.nodes = space.nodes)
    (root : after.root = space.root) : Stores after trees extra :=
  ⟨nodes ▸ stores.owns, root ▸ stores.root⟩

theorem Stores.of_holds {after : VmapSpace}
    (holds :
    HoldsTree ⟨after.nodes, after.root which⟩ next (treeCells 0 (trees which.other) + left))
    (other : after.root which.other = space.root which.other) :
    Stores after (update trees which next) left := by
  constructor
  case owns =>
    cases which with
    | free => exact holds.owns
    | busy =>
      have owns := holds.owns
      rwa [add_left_comm] at owns
  case root =>
    have here : after.root which = rootPtr next := holds.root
    have there : after.root which.other = rootPtr (trees which.other) :=
      other.trans (stores.root which.other)
    intro one
    cases one <;> cases which <;> first | exact here | exact there

variable (which) in
/-- Work on one of the trees. -/
theorem Stores.onTree (ran : Returns code ⟨space.nodes, space.root which⟩ value fun after =>
      HoldsTree after next (treeCells 0 (trees which.other) + left)) :
    Ensures (Xlinux.onTree which code) space fun result after =>
      result = value ∧ Kept space after ∧ Stores after (update trees which next) left := by
  obtain ⟨tree, returned, holds⟩ := ran
  intro result after same
  rw [Xlinux.onTree, returned] at same
  cases same
  refine ⟨rfl, ⟨rfl, rfl⟩, stores.of_holds ?_ ?_⟩
  · show Holds ⟨tree.nodes, update space.root which tree.rbNode which⟩ _ _
    rw [update_self]
    exact holds
  · cases which <;> rfl

theorem Stores.nodup : ((trees .free).labels ++ (trees .busy).labels).Nodup := by
  have apart := stores.owns.nodup
  rw [← add_assoc, Multiset.map_add, Multiset.nodup_add, Multiset.map_add, map_fst_treeCells,
    map_fst_treeCells] at apart
  exact apart.1

end

theorem Stores.not_mem_of_extra {node : UInt64} {record : RbNode UInt64}
    (stores : Stores space trees (cell node record + extra)) (which : VmapRoot) :
    node ∉ (trees which).labels := by
  have holds := stores.holds which
  have split : Owns Usable space.nodes (cell node record + (treeCells 0 (trees which) +
      (treeCells 0 (trees which.other) + extra))) := (holds.of_eq (by abel)).owns
  have outside := split.not_mem
  rw [Multiset.map_add, Multiset.mem_add, not_or, map_fst_treeCells] at outside
  exact outside.1

end Stores

/-! ### Changes of the free tree -/

/-- Both trees are in memory, with the lists that go with them, and are what they should be. -/
structure Spaces (space : VmapSpace) (trees : VmapRoot → MaxTree)
    (extra : NodeCells UInt64) : Prop extends Stores space trees extra where
  list : ∀ which, space.list which = (trees which).labels
  valid : ∀ which, (trees which).Valid
  ordered : ∀ which, Ordered space.areas (trees which).labels
  summed : Summed (maxOver (sizeAt space.areas)) (trees .free)

theorem ensures_deref {memory : RbTree UInt64} (ptr : UInt64) :
    Ensures (deref ptr) memory fun _ after => after = memory ∧ True := by
  intro node after ran
  rw [deref] at ran
  split_ifs at ran
  cases ran
  exact ⟨rfl, trivial⟩

theorem ensures_bugOn {space : VmapSpace} {condition : Bool} {β : Type} {rest : Unit → VmapM β}
    {post : β → VmapSpace → Prop} (next : condition = false → Ensures (rest ()) space post) :
    Ensures (bugOn condition >>= rest) space post := by
  cases condition with
  | true => exact ensures_throw
  | false => exact next rfl

section Spaces

variable {space : VmapSpace} {trees : VmapRoot → MaxTree}
  {extra : NodeCells UInt64} {which : VmapRoot} {next : MaxTree}
  {node ptr : UInt64} {va : VmapArea} {record : RbNode UInt64}
  {frames : List MaxFrame}

variable (which) in
/-- One tree has changed, and the areas of the other one have not. -/
theorem Spaces.of_tree {after : VmapSpace} {left : NodeCells UInt64}
    (spaces : Spaces space trees extra) (stores : Stores after (update trees which next) left)
    (list : after.list which = next.labels)
    (others : after.list which.other = space.list which.other) (valid : next.Valid)
    (ordered : Ordered after.areas next.labels)
    (same : ∀ node ∈ (trees which.other).labels, after.areas node = space.areas node)
    (summed : Summed (maxOver (sizeAt after.areas)) (update trees which next .free)) :
    Spaces after (update trees which next) left where
  toStores := stores
  list one := by
    have there := others.trans (spaces.list which.other)
    cases one <;> cases which <;> first | exact list | exact there
  valid one := by
    have there := spaces.valid which.other
    cases one <;> cases which <;> first | exact valid | exact there
  ordered one := by
    have there := (spaces.ordered which.other).congr same
    cases one <;> cases which <;> first | exact ordered | exact there
  summed := summed

theorem Stores.not_mem_busy (stores : Stores space trees extra)
    (member : ptr ∈ (trees .free).labels) (inBusy : node ∈ (trees .busy).labels) : node ≠ ptr := by
  rintro rfl
  exact disjoint_of_nodup_append stores.nodup member inBusy

variable (va) in
/-- An area of the free tree gets smaller. -/
theorem Spaces.shrink (spaces : Spaces space trees extra) (member : ptr ∈ (trees .free).labels)
    (nonempty : va.vaStart < va.vaEnd) (low : (space.areas ptr).vaStart ≤ va.vaStart)
    (high : va.vaEnd ≤ (space.areas ptr).vaEnd) :
    Ensures (augmentTreePropagateFrom ptr)
      { space with areas := update space.areas ptr va } fun _ after =>
        ∃ next, Spaces after (update trees .free next) extra ∧
          next.labels = (trees .free).labels ∧ after.areas = update space.areas ptr va := by
  obtain ⟨_, _, _, _, _, place⟩ := exists_fill_of_mem_labels member
  have ordered := spaces.ordered .free
  have valid := spaces.valid .free
  have summed := spaces.summed
  have nodup := (spaces.toStores.represents .free).nodup
  have holds := spaces.toStores.holds .free
  rw [place] at ordered valid summed nodup holds
  generalize nextAreas : update space.areas ptr va = areas
  have same : ∀ node, node ≠ ptr → areas node = space.areas node := fun node different => by
    rw [← nextAreas, update_of_ne different]
  have stores : Stores { space with areas := areas } trees extra := ⟨spaces.owns, spaces.root⟩
  refine ensures_get ?_
  refine (stores.onTree .free (holds.maxPropagate (sizeAt areas))).mono fun _ after ran => ?_
  obtain ⟨_, kept, stores⟩ := ran
  refine ⟨_, spaces.of_tree .free stores ?_ ?_ (valid_refresh valid) ?_ ?_ ?_, ?_, kept.areas⟩
  · rw [kept.list, labels_refresh, ← place]
    exact spaces.list .free
  · rw [kept.list]
  · rw [kept.areas, labels_refresh]
    refine ordered.shrink fun node inTree => ?_
    show (space.areas node).vaStart ≤ (areas node).vaStart ∧ (areas node).vaEnd ≤ _ ∧
      (areas node).vaStart < (areas node).vaEnd
    rcases eq_or_ne node ptr with rfl | here
    · rw [← nextAreas, update_self]
      exact ⟨low, high, nonempty⟩
    · rw [same node here]
      exact ⟨UInt64.le_refl _, UInt64.le_refl _, ordered.nonempty node inTree⟩
  · rw [kept.areas]
    exact fun node inBusy => same node (spaces.toStores.not_mem_busy member inBusy)
  · rw [kept.areas]
    exact summed_refresh_congr nodup summed fun node _ different =>
      congrArg vaSize (same node different)
  · rw [labels_refresh, place]

theorem Stores.linked (stores : Stores space trees (cell node record + extra)) (which : VmapRoot)
    (place : trees which = fill frames .leaf) :
    HoldsTree ⟨space.nodes, space.root which⟩ (fill frames .leaf)
      (cell node record + (treeCells 0 (trees which.other) + extra)) := by
  have holds := stores.holds which
  rw [place] at holds
  exact holds.of_eq (by abel)

/-- A node is linked into a tree, but the tree is not repaired yet. -/
theorem Stores.rbLinkNode (stores : Stores space trees (cell node record + extra))
    (which : VmapRoot) (place : trees which = fill frames .leaf) :
    Ensures (Xlinux.onTree which (Xlinux.rbLinkNode node (parentOf 0 frames) (linkOf frames))) space
      fun _ after => Kept space after ∧ Stores after (update trees which
        (fill frames (.node .red .leaf node record.entry .leaf))) extra :=
  (stores.onTree which (stores.linked which place).rbLinkNode).mono fun _ _ ran => ran.2

/-- The free tree is repaired, and the maximum of the new node set to zero. -/
theorem Stores.insertVa_free {entry : UInt64} (stores : Stores space (update trees .free
      (fill frames (.node .red .leaf node entry .leaf))) extra)
    (valid : (fill frames .leaf).Valid) :
    Ensures (insertVa .free node) space fun _ after =>
      Kept space after ∧ ∃ place color left known right,
        insertFix (maxAugment (sizeAt space.areas)) frames (.node .red .leaf node entry .leaf) =
          fill place (.node color left node known right) ∧
        Stores after (update trees .free (fill place (.node color left node 0 right))) extra := by
  have holds : Holds ⟨space.nodes, space.root .free⟩ (treeCells 0 (fill frames
      (.node .red .leaf node entry .leaf)) + (treeCells 0 (trees .busy) + extra)) _ :=
    stores.holds .free
  have member : node ∈ (insertFix (maxAugment (sizeAt space.areas)) frames
      (.node .red .leaf node entry .leaf)).labels := by
    rw [labels_insertFix, labels_fill]
    simp
  obtain ⟨place, color, left, known, right, repaired⟩ := exists_fill_of_mem_labels member
  refine ensures_get ?_
  refine (stores.onTree .free (holds.rbInsertLinked (rotates_maxRotate _) valid)).bind
    fun _ middle ran => ?_
  obtain ⟨_, keptMiddle, stores⟩ := ran
  rw [repaired, update_idem] at stores
  have holds : Holds ⟨middle.nodes, middle.root .free⟩ (treeCells 0 (fill place
      (.node color left node known right)) + (treeCells 0 (trees .busy) + extra)) _ :=
    stores.holds .free
  refine (stores.onTree .free (holds.setEntry 0)).mono fun _ after ran => ?_
  obtain ⟨_, kept, stores⟩ := ran
  rw [update_idem] at stores
  exact ⟨keptMiddle.trans kept, place, color, left, known, right, repaired, stores⟩

/-- A node is linked into a tree, and the areas stay as they are. -/
def Inserted (space after : VmapSpace) (trees : VmapRoot → MaxTree)
    (extra : NodeCells UInt64) (which : VmapRoot) (node : UInt64) : Prop :=
  ∃ next before later, Spaces after (update trees which next) extra ∧
    (trees which).labels = before ++ later ∧ next.labels = before ++ node :: later ∧
    after.areas = space.areas

section

variable (spaces : Spaces space trees (cell node record + extra))
  (apart : ∀ frame ∈ frames, Apart space.areas (space.areas node) frame)
  (nonempty : (space.areas node).vaStart < (space.areas node).vaEnd)

include spaces apart nonempty

/-- A new area is linked into the free tree, and the maxima are computed. -/
theorem Spaces.linkFree (place : trees .free = fill frames .leaf) :
    Ensures (do
      linkVa .free node (parentOf 0 frames) (linkOf frames)
      augmentTreePropagateFrom node) space fun _ after =>
        Inserted space after trees extra .free node := by
  have fresh := spaces.toStores.not_mem_of_extra .free
  have represents := spaces.toStores.represents .free
  have ordered := spaces.ordered .free
  have valid := spaces.valid .free
  have summed := spaces.summed
  have list := spaces.list .free
  rw [place] at ordered valid summed represents fresh list
  obtain ⟨earlier, later⟩ := ordered.placed apart
  have split := place ▸ labels_fill_leaf frames
  obtain ⟨lists, listsEq⟩ : ∃ lists, lists = update space.list .free
    (labelsBefore frames ++ node :: labelsAfter frames) := ⟨_, rfl⟩
  have link : Ensures (linkVa .free node (parentOf 0 frames) (linkOf frames)) space fun _ middle =>
      Kept { space with list := lists } middle ∧
      ∃ place color left known right, insertFix (maxAugment (sizeAt space.areas)) frames
          (.node .red .leaf node record.entry .leaf) =
            fill place (.node color left node known right) ∧
        Stores middle (update trees .free (fill place (.node color left node 0 right))) extra := by
    rw [linkVa]
    refine (spaces.toStores.rbLinkNode .free place).bind fun _ first ran => ?_
    obtain ⟨keptFirst, stores⟩ := ran
    refine (stores.insertVa_free valid).bind fun _ second ran => ?_
    obtain ⟨keptSecond, place, color, left, known, right, repaired, stores⟩ := ran
    have kept := keptFirst.trans keptSecond
    rw [keptFirst.areas] at repaired
    refine ensures_modify_last ⟨⟨kept.areas, ?_⟩, place, color, left, known, right, repaired,
      stores.owns, stores.root⟩
    rw [kept.list, list, represents.listAdd node, listsEq]
  refine link.bind fun _ middle ran => ?_
  obtain ⟨keptMiddle, place, color, left, known, right, repaired, stores⟩ := ran
  have holds : Holds ⟨middle.nodes, middle.root .free⟩ (treeCells 0 (fill place
      (.node color left node 0 right)) + (treeCells 0 (trees .busy) + extra)) _ :=
    stores.holds .free
  have areasEq : middle.areas = space.areas := keptMiddle.areas
  have labels : (fill place (.node color left node 0 right)).labels =
      labelsBefore frames ++ node :: labelsAfter frames := by
    have repairedLabels := congrArg Tree.labels repaired
    rw [labels_insertFix_leaf, labels_fill, labels_node] at repairedLabels
    rw [labels_fill, labels_node, repairedLabels]
  have repairedValid : (fill place (.node color left node 0 right)).Valid := by
    exact valid_fill_entry (repaired ▸ valid_insertFix_leaf valid) 0
  refine ensures_get ?_
  refine (stores.onTree .free (holds.maxPropagate _)).mono fun _ after ran => ?_
  obtain ⟨_, kept, stores⟩ := ran
  rw [update_idem] at stores
  refine ⟨_, _, _, spaces.of_tree .free stores ?_ ?_ (valid_refresh repairedValid) ?_ ?_ ?_,
    split, ?_, kept.areas.trans areasEq⟩
  · rw [kept.list, keptMiddle.list, labels_refresh, labels, listsEq]
    rfl
  · rw [kept.list, keptMiddle.list, listsEq]
    rfl
  · rw [kept.areas, areasEq, labels_refresh, labels]
    rw [labels_fill_leaf] at ordered
    exact ordered.insert nonempty earlier later
  · rw [kept.areas, areasEq]
    exact fun _ _ => rfl
  · rw [kept.areas, areasEq]
    exact summed_maxInsert represents.nodup fresh summed repaired
  · rw [labels_refresh, labels]

/-- A new area is linked into the busy tree. -/
theorem Spaces.linkBusy (place : trees .busy = fill frames .leaf) :
    Ensures (linkVa .busy node (parentOf 0 frames) (linkOf frames)) space fun _ after =>
      Inserted space after trees extra .busy node := by
  have represents := spaces.toStores.represents .busy
  have ordered := spaces.ordered .busy
  have valid := spaces.valid .busy
  have list := spaces.list .busy
  rw [place] at ordered valid represents list
  obtain ⟨earlier, later⟩ := ordered.placed apart
  have labels : (insertFix (Augment.none UInt64 UInt64) frames
      (.node .red .leaf node record.entry .leaf)).labels =
      labelsBefore frames ++ node :: labelsAfter frames := labels_insertFix_leaf ..
  have inserted : (insertFix (Augment.none UInt64 UInt64) frames
      (.node .red .leaf node record.entry .leaf)).Valid := valid_insertFix_leaf valid
  rw [linkVa]
  refine (spaces.toStores.rbLinkNode .busy place).bind fun _ first ran => ?_
  obtain ⟨keptFirst, stores⟩ := ran
  have holds : Holds ⟨first.nodes, first.root .busy⟩ (treeCells 0 (fill frames
      (.node .red .leaf node record.entry .leaf)) + (treeCells 0 (trees .free) + extra)) _ :=
    stores.holds .busy
  refine (stores.onTree .busy (holds.rbInsertLinked rotates_dummy valid)).bind fun _ second ran =>
    ?_
  obtain ⟨_, keptSecond, stores⟩ := ran
  rw [update_idem] at stores
  have kept := keptFirst.trans keptSecond
  refine ensures_modify_last
    ⟨_, _, _, spaces.of_tree .busy ⟨stores.owns, stores.root⟩ ?_ ?_ inserted
    ?_ ?_ ?_, place ▸ labels_fill_leaf _, labels, kept.areas⟩
  · rw [kept.list, list, represents.listAdd node]
    exact labels.symm
  · exact congrFun kept.list .free
  · rw [kept.areas, labels]
    rw [labels_fill_leaf] at ordered
    exact ordered.insert nonempty earlier later
  · exact fun one _ => congrFun kept.areas one
  · rw [kept.areas]
    exact spaces.summed

end

theorem Stores.drop {cells : NodeCells UInt64}
    (stores : Stores space trees (cells + extra)) : Stores space trees extra := by
  have split : treeCells 0 (trees .free) + (treeCells 0 (trees .busy) + (cells + extra)) =
      treeCells 0 (trees .free) + (treeCells 0 (trees .busy) + extra) + cells := by abel
  have owns := stores.owns
  rw [split] at owns
  exact ⟨owns.part, stores.root⟩

/-- An area is taken out of the free tree. -/
theorem Spaces.unlinkVa (spaces : Spaces space trees extra) (member : ptr ∈ (trees .free).labels) :
    Ensures (Xlinux.unlinkVa ptr) space fun _ after =>
      ∃ next, Spaces after (update trees .free next) extra ∧
        next.labels = (trees .free).labels.erase ptr ∧ after.areas = space.areas := by
  obtain ⟨frames, color, left, entry, right, place⟩ := exists_fill_of_mem_labels member
  have ordered := spaces.ordered .free
  have valid := spaces.valid .free
  have summed := spaces.summed
  have list := spaces.list .free
  have nodup := (spaces.toStores.represents .free).nodup
  have holds := spaces.toStores.holds .free
  rw [place] at ordered valid summed nodup holds list ⊢
  have erased : ∀ augment : Augment UInt64 UInt64,
      (erase augment frames color left entry right).labels =
        (fill frames (.node color left ptr entry right)).labels.erase ptr := by
    intro augment
    rw [labels_fill_node, nodup_middle, nodup_cons, mem_append, not_or] at nodup
    rw [labels_fill_node, erase_append_right _ nodup.1.1, labels_erase]
    simp
  have gone : Returns (rbEraseWith (maxCallbacks (sizeAt space.areas)) ptr)
      ⟨space.nodes, space.root .free⟩ () fun after =>
        HoldsTree after (erase (maxAugment (sizeAt space.areas)) frames color left entry right)
          (treeCells 0 (trees .busy) + (cell ptr
            ⟨packed (parentOf 0 frames) color, rootPtr right, rootPtr left, entry⟩ + extra)) :=
    ((lawful_maxCallbacks _).rbEraseWith valid holds).mono fun after holds =>
      holds.of_eq (congrArg _ (add_left_comm ..))
  rw [Xlinux.unlinkVa]
  refine ensures_onTree_read (ensures_deref ptr) fun rb _ => ensures_bugOn fun _ => ensures_get ?_
  refine (spaces.toStores.onTree .free gone).bind fun _ first ran => ?_
  obtain ⟨_, keptFirst, stores⟩ := ran
  refine ensures_modify ?_
  generalize middleEq : ({ first with
    list := update first.list .free ((first.list .free).erase ptr) } : VmapSpace) = middle
  have storesMiddle := stores.congr middle (by rw [← middleEq]) (by rw [← middleEq])
  have holds : Holds ⟨middle.nodes, middle.root .free⟩ (treeCells 0 (erase _ frames color left entry
      right) + (treeCells 0 (trees .busy) + (cell ptr _ + extra))) _ := storesMiddle.holds .free
  refine (storesMiddle.onTree .free ((acts_modifyNode ptr _ _).at_third holds)).mono
    fun _ after ran => ?_
  obtain ⟨_, kept, stores⟩ := ran
  rw [update_idem] at stores
  have areasEq : after.areas = space.areas := by
    rw [kept.areas, ← middleEq]
    exact keptFirst.areas
  refine ⟨_, spaces.of_tree .free stores.drop ?_ ?_ (valid_erase valid) ?_ ?_ ?_, erased _, areasEq⟩
  · rw [kept.list, ← middleEq, erased, ← list, ← keptFirst.list]
    rfl
  · rw [kept.list, ← middleEq]
    exact congrFun keptFirst.list .busy
  · rw [areasEq, erased]
    exact ordered.sublist erase_sublist
  · exact fun one _ => congrFun areasEq one
  · rw [areasEq]
    exact summed_erase (totals_maxAugment _) summed

end Spaces

end Xlinux
