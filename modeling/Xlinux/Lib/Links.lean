/-
This file is about doubly linked lists. Every node has a next and a previous
node; a stretch of a list is known by the node before it, its nodes and the node
after it. A node is added by writing the links of its two neighbours and its own.
-/

import Mathlib

namespace Links

open List

variable {Node : Type}

/-- From the node `left` on, the links lead through some nodes to `right` and, between them,
back. -/
def Linked (next prev : Node → Node) : Node → List Node → Node → Prop
  | left, [], right => next left = right
  | left, node :: nodes, right => next left = node ∧ prev node = left ∧
    Linked next prev node nodes right

variable {next prev next' prev' : Node → Node} {left right node : Node}
    {nodes before after : List Node}

/-- Only the links of the nodes themselves count. -/
theorem Linked.congr (linked : Linked next prev left nodes right)
    (sameNext : ∀ one ∈ left :: nodes, next' one = next one)
    (samePrev : ∀ one ∈ nodes, prev' one = prev one) : Linked next' prev' left nodes right := by
  induction nodes generalizing left with
  | nil => exact (sameNext left mem_cons_self).trans linked
  | cons node nodes ih =>
    obtain ⟨first, back, rest⟩ := linked
    refine ⟨(sameNext left mem_cons_self).trans first,
      (samePrev node mem_cons_self).trans back, ih rest ?_ ?_⟩
    · exact (forall_mem_cons.mp sameNext).2
    · exact (forall_mem_cons.mp samePrev).2

/-- The node behind the first nodes. -/
theorem Linked.next_getLastD (linked : Linked next prev left (before ++ after) right) :
    next (before.getLastD left) = after.headD right := by
  induction before generalizing left with
  | nil =>
    cases after with
    | nil => exact linked
    | cons head after => exact linked.1
  | cons node before ih =>
    rw [getLastD_cons]
    exact ih linked.2.2

/-- The node before a node. -/
theorem Linked.prev_eq (linked : Linked next prev left (before ++ node :: after) right) :
    prev node = before.getLastD left := by
  induction before generalizing left with
  | nil => exact linked.2.1
  | cons first before ih =>
    rw [getLastD_cons]
    exact ih linked.2.2

/-- A node is put between two others. -/
theorem Linked.insert (linked : Linked next prev left (before ++ after) right)
    (nodup : (left :: (before ++ node :: after)).Nodup)
    (toNode : next' (before.getLastD left) = node)
    (fromNode : next' node = next (before.getLastD left))
    (sameNext : ∀ one ∈ left :: (before ++ after), one ≠ before.getLastD left →
      next' one = next one)
    (backFromNode : prev' node = before.getLastD left)
    (backToNode : ∀ one ∈ after.head?, prev' one = node)
    (samePrev : ∀ one ∈ before ++ after, one ∉ after.head? → prev' one = prev one) :
    Linked next' prev' left (before ++ node :: after) right := by
  induction before generalizing left with
  | nil =>
    refine ⟨toNode, backFromNode, ?_⟩
    simp only [nil_append, nodup_cons, mem_cons, not_or] at nodup
    obtain ⟨⟨_, leftOutside⟩, _, apart⟩ := nodup
    cases after with
    | nil => exact fromNode.trans linked
    | cons head after =>
      obtain ⟨first, _, rest⟩ := linked
      refine ⟨fromNode.trans first, backToNode head rfl, rest.congr ?_ ?_⟩
      · intro one member
        refine sameNext one (mem_cons_of_mem _ member) ?_
        rintro rfl
        exact leftOutside member
      · intro one member
        refine samePrev one (mem_cons_of_mem _ member) ?_
        rintro ⟨⟩
        exact (nodup_cons.mp apart).1 member
  | cons first before ih =>
    rw [getLastD_cons] at toNode fromNode sameNext backFromNode
    obtain ⟨there, back, rest⟩ := linked
    have leftOutside := (nodup_cons.mp nodup).1
    have firstOutside : first ∉ after.head? := by
      intro member
      have inner := (nodup_cons.mp (nodup_cons.mp nodup).2).1
      refine inner (mem_append_right _ (mem_cons_of_mem _ ?_))
      exact mem_of_mem_head? member
    refine ⟨?_, ?_, ih rest (nodup_cons.mp nodup).2 toNode fromNode ?_ backFromNode ?_⟩
    · refine (sameNext left mem_cons_self ?_).trans there
      intro last
      refine leftOutside (last ▸ ?_)
      exact mem_append_left _ getLastD_mem_cons
    · exact (samePrev first mem_cons_self firstOutside).trans back
    · exact (forall_mem_cons.mp sameNext).2
    · exact (forall_mem_cons.mp samePrev).2

end Links
