/-
This file is about `find_vma`. On a tree of areas in order, the loop goes to the
first area that ends above the address; if there is none, the variable that is
returned has never been written to.
-/

import Xlinux.Mmap.Areas
import Xlinux.Rbtree.Valid

namespace Xlinux

open RedBlack Cells List

/-- Areas in order: each ends where the next one starts, or before that. -/
structure VmAreas.Sorted (areas : VmAreas) (nodes : List UInt64) : Prop where
  apart : nodes.Pairwise fun one other => (areas one).vmEnd ≤ (areas other).vmStart
  forward : ∀ node ∈ nodes, (areas node).vmStart ≤ (areas node).vmEnd

/-- The first of some areas that ends above an address. -/
def firstAbove (areas : VmAreas) (addr : UInt64) (nodes : List UInt64) : Option UInt64 :=
  nodes.find? fun node => addr < (areas node).vmEnd

section Find

variable {areas : VmAreas} {addr node : UInt64} {nodes others : List UInt64}
    {memory : RbTree UInt64}
  {frames : List MaxFrame} {tree : MaxTree}

theorem firstAbove_append : firstAbove areas addr (nodes ++ others) =
    (firstAbove areas addr nodes).or (firstAbove areas addr others) :=
  List.find?_append

theorem firstAbove_cons_of_lt (above : addr < (areas node).vmEnd) :
    firstAbove areas addr (node :: nodes) = some node :=
  List.find?_cons_of_pos (decide_eq_true above)

theorem firstAbove_eq_none :
    firstAbove areas addr nodes = none ↔ ∀ node ∈ nodes, ¬addr < (areas node).vmEnd := by
  simp [firstAbove]

theorem VmAreas.Sorted.sublist (sorted : areas.Sorted nodes) (inside : others.Sublist nodes) :
    areas.Sorted others :=
  ⟨sorted.apart.sublist inside, fun node member => sorted.forward node (inside.subset member)⟩

/-- What is before an area that starts below an address does not end above it. -/
theorem VmAreas.Sorted.none_before (sorted : areas.Sorted (nodes ++ node :: others))
    (low : (areas node).vmStart ≤ addr) : firstAbove areas addr nodes = none := by
  refine firstAbove_eq_none.mpr fun one member => ?_
  have ends := (pairwise_append.mp sorted.apart).2.2 one member node mem_cons_self
  exact UInt64.not_lt.mpr (UInt64.le_trans ends low)

/-- The loop finds the first area of a subtree that ends above the address. -/
theorem Represents.findVmaLoop {turns : Nat} (represents : Represents memory (fill frames tree))
    (sorted : areas.Sorted tree.labels) (enough : tree.labels.length < turns) (vma : UInt64) :
    Xlinux.findVmaLoop areas addr turns (rootPtr tree) vma memory =
      .ok ((firstAbove areas addr tree.labels).getD vma, memory) := by
  induction tree generalizing frames turns vma with
  | leaf =>
    obtain ⟨turns, rfl⟩ := Nat.exists_eq_succ_of_ne_zero (ne_zero_of_lt enough)
    rfl
  | node color left label entry right leftFinds rightFinds =>
    obtain ⟨turns, rfl⟩ := Nat.exists_eq_succ_of_ne_zero (ne_zero_of_lt enough)
    have nonempty : RedBlack.Tree.node color left label entry right ≠ .leaf := nofun
    rw [labels_node] at sorted enough ⊢
    rw [length_append, length_cons] at enough
    rw [findVmaLoop, rootPtr, if_pos represents.at_place.ne, firstAbove_append]
    by_cases above : addr < (areas label).vmEnd
    · rw [if_pos above, firstAbove_cons_of_lt above]
      split_ifs with low
      · rw [sorted.none_before low]
        rfl
      · have place := represents.at_left
        have child := represents.rbChild nonempty .left
        rw [rootPtr] at child
        rw [read_bind child, Tree.child,
          leftFinds place (sorted.sublist (sublist_append_left ..)) (by omega)]
        cases firstAbove areas addr left.labels <;> rfl
    · have below := UInt64.not_lt.mp above
      have low := UInt64.le_trans (sorted.forward label (by simp)) below
      have skip :
          firstAbove areas addr (label :: right.labels) = firstAbove areas addr right.labels :=
        List.find?_cons_of_neg (by simpa using above)
      rw [if_neg above, skip, sorted.none_before low]
      have place := represents.at_right
      have child := represents.rbChild nonempty .right
      rw [rootPtr] at child
      have inside : right.labels.Sublist (left.labels ++ label :: right.labels) :=
        (sublist_cons_self ..).trans (sublist_append_right ..)
      rw [read_bind child, Tree.child, rightFinds place (sorted.sublist inside) (by omega)]
      rfl

/-- What `find_vma` returns. -/
theorem Represents.findVma (represents : Represents memory tree) (sorted : areas.Sorted tree.labels)
    (uninitialized : UInt64) :
    Xlinux.findVma areas addr uninitialized memory =
      .ok ((firstAbove areas addr tree.labels).getD uninitialized, memory) := by
  have place : Represents memory (fill [] tree) := represents
  show Xlinux.findVmaLoop areas addr maxTurns memory.rbNode uninitialized memory = _
  rw [represents.root]
  exact place.findVmaLoop sorted represents.length_labels_lt uninitialized

/-- The area with the lowest end above an address. -/
structure LowestAbove (areas : VmAreas) (addr : UInt64) (nodes : List UInt64)
    (node : UInt64) : Prop where
  member : node ∈ nodes
  above : addr < (areas node).vmEnd
  lowest : ∀ other ∈ nodes, addr < (areas other).vmEnd → (areas node).vmEnd ≤ (areas other).vmEnd

/-- The other areas above an address are behind the first one. -/
theorem VmAreas.Sorted.eq_or_le {other : UInt64} (sorted : areas.Sorted nodes)
    (found : firstAbove areas addr nodes = some node) (member : other ∈ nodes)
    (otherAbove : addr < (areas other).vmEnd) :
    other = node ∨ (areas node).vmEnd ≤ (areas other).vmStart := by
  obtain ⟨above, _, _, rfl, earlier⟩ := find?_eq_some_iff_append.mp found
  rcases mem_append.mp member with inBefore | later
  · exact absurd otherAbove (by simpa using earlier other inBefore)
  · exact (mem_cons.mp later).imp_right
      ((pairwise_cons.mp (pairwise_append.mp sorted.apart).2.1).1 other)

/-- The first area above an address is the lowest one. -/
theorem VmAreas.Sorted.lowestAbove (sorted : areas.Sorted nodes)
    (found : firstAbove areas addr nodes = some node) : LowestAbove areas addr nodes node := by
  obtain ⟨above, -⟩ := find?_eq_some_iff_append.mp found
  refine ⟨mem_of_find?_eq_some found, of_decide_eq_true above, ?_⟩
  intro other member otherAbove
  rcases sorted.eq_or_le found member otherAbove with rfl | behind
  · exact UInt64.le_refl _
  · exact UInt64.le_trans behind (sorted.forward other member)

end Find

/-- `find_vma` returns the area with the lowest end above the address, or `NULL` if there is none,
whatever is in memory besides the tree, exactly if there is one. -/
theorem findVma_lowestAbove_iff (areas : VmAreas) (memory : RbTree UInt64)
    (tree : Tree UInt64 UInt64)
    (addr : UInt64) (represents : Represents memory tree) (sorted : areas.Sorted tree.labels) :
    (∃ found, (∀ uninitialized, findVma areas addr uninitialized memory = .ok (found, memory)) ∧
      (LowestAbove areas addr tree.labels found ∨
        found = 0 ∧ ∀ node ∈ tree.labels, ¬addr < (areas node).vmEnd)) ↔
    ∃ node ∈ tree.labels, addr < (areas node).vmEnd := by
  constructor
  · rintro ⟨found, returned, _⟩
    by_contra none
    have empty : firstAbove areas addr tree.labels = .none :=
      firstAbove_eq_none.mpr fun node member above => none ⟨node, member, above⟩
    -- nothing is ever stored, so that two different words would both be returned
    have first := returned 0
    have second := returned 1
    rw [represents.findVma sorted, empty] at first second
    cases first
    cases second
  · rintro ⟨node, member, above⟩
    cases found : firstAbove areas addr tree.labels with
    | none => exact absurd above (firstAbove_eq_none.mp found node member)
    | some first =>
      refine ⟨first, fun uninitialized => ?_, .inl (sorted.lowestAbove found)⟩
      rw [represents.findVma sorted, found]
      rfl

/-- One area, of the page at 0x1000. -/
def onePage : VmAreas := fun _ => ⟨0x1000, 0x2000, 0, 0, 0, 0, 0, 0⟩

def onePageTree : MaxTree := .node .black .leaf 8 0x1000 .leaf

def onePageMemory : RbTree UInt64 := ⟨fun _ => ⟨1, 0, 0, 0x1000⟩, 8⟩

theorem represents_onePage : Represents onePageMemory onePageTree where
  owns := {
    nodup := by decide
    usable := by decide
    holds := by simp [onePageTree, treeCells, cell, onePageMemory, rootPtr, packed, colorWord] }
  root := rfl

theorem sorted_onePage : onePage.Sorted onePageTree.labels :=
  ⟨pairwise_singleton .., fun _ _ => show (0x1000 : UInt64) ≤ 0x2000 by decide⟩

/-- Two areas, of the pages at 0x1000 and 0x4000. -/
def twoMappings (node : UInt64) : VmAreaStruct :=
  if node = 8 then ⟨0x1000, 0x2000, 0, 0, 0, 0, 0, 0⟩ else ⟨0x4000, 0x5000, 0, 0, 0, 0, 0, 0⟩

/-- An address between the two areas. -/
theorem findVma_lowestAbove_iff_twoMappings :
    ∃ found, (∀ uninitialized, findVma twoMappings 0x2800 uninitialized twoNodesMemory =
        .ok (found, twoNodesMemory)) ∧
      (LowestAbove twoMappings 0x2800 twoNodes.labels found ∨
        found = 0 ∧ ∀ node ∈ twoNodes.labels, ¬0x2800 < (twoMappings node).vmEnd) := by
  have sorted : VmAreas.Sorted twoMappings twoNodes.labels := by
    refine ⟨pairwise_pair.mpr (by decide), fun node _ => ?_⟩
    unfold twoMappings
    split_ifs <;> decide
  exact (findVma_lowestAbove_iff twoMappings _ _ 0x2800 represents_twoNodes sorted).mpr
    ⟨16, by decide, by decide⟩

/-- In an empty tree, and above all areas, `find_vma` returns what was in memory before. -/
theorem findVma_uninitialized :
    (Represents onePageMemory onePageTree ∧ onePage.Sorted onePageTree.labels) ∧
    (∀ node ∈ onePageTree.labels, ¬0x5000 < (onePage node).vmEnd) ∧
    (findVma onePage 0x5000 0x1234 onePageMemory).map Prod.fst = .ok 0x1234 ∧
    (findVma onePage 0x5000 0 ⟨onePageMemory.nodes, 0⟩).map Prod.fst = .ok 0 ∧
    (findVma onePage 0x5000 0x1234 ⟨onePageMemory.nodes, 0⟩).map Prod.fst = .ok 0x1234 :=
  ⟨⟨represents_onePage, sorted_onePage⟩, fun _ _ => show ¬(0x5000 : UInt64) < 0x2000 by decide,
    rfl, rfl, rfl⟩

end Xlinux
