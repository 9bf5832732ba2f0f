/-
This file is about circular lists with a head, kept as the next and the previous
node of every node, the head being a node as well. Nodes are added and deleted by
writing links. The lists that occur here are empty or have a single node; what
the operations do to them, and that they leave all other nodes alone, is stated
for each of them.
-/

import Mathlib

/-- The next and the previous node of every node. -/
structure ListHeads (Node : Type) where
  next : Node → Node
  prev : Node → Node

namespace ListHeads

open Function

variable {Node : Type} [DecidableEq Node] {heads : ListHeads Node} {head node old new : Node}

/-- A node that is linked to itself. -/
def init (heads : ListHeads Node) (node : Node) : ListHeads Node where
  next := update heads.next node node
  prev := update heads.prev node node

/-- A new node between two nodes. -/
def addBetween (heads : ListHeads Node) (new before after : Node) : ListHeads Node where
  prev := update (update heads.prev after new) new before
  next := update (update heads.next new after) before new

/-- A new node behind the head. -/
def add (heads : ListHeads Node) (new head : Node) : ListHeads Node :=
  heads.addBetween new head (heads.next head)

/-- A new node at the end. -/
def addTail (heads : ListHeads Node) (new head : Node) : ListHeads Node :=
  heads.addBetween new (heads.prev head) head

/-- A node is taken out and linked to itself. -/
def delInit (heads : ListHeads Node) (node : Node) : ListHeads Node :=
  let before := heads.prev node
  let after := heads.next node
  init ⟨update heads.next before after, update heads.prev after before⟩ node

/-- A head takes the place of another one, which is linked to itself. -/
def replaceInit (heads : ListHeads Node) (old new : Node) : ListHeads Node :=
  let first : ListHeads Node := ⟨update heads.next new (heads.next old), heads.prev⟩
  let second : ListHeads Node := ⟨first.next, update first.prev (first.next new) new⟩
  let third : ListHeads Node := ⟨second.next, update second.prev new (second.prev old)⟩
  let fourth : ListHeads Node := ⟨update third.next (third.prev new) new, third.prev⟩
  fourth.init old

/-- The list of a head is empty. -/
structure Empty (heads : ListHeads Node) (head : Node) : Prop where
  next : heads.next head = head
  prev : heads.prev head = head

/-- The list of a head has a single node. -/
structure Single (heads : ListHeads Node) (head node : Node) : Prop where
  first : heads.next head = node
  last : heads.prev head = node
  next : heads.next node = head
  prev : heads.prev node = head

/-- The links of all nodes but some are as they were. -/
def Keeps (heads later : ListHeads Node) (touched : List Node) : Prop :=
  ∀ other ∉ touched, later.next other = heads.next other ∧ later.prev other = heads.prev other

omit [DecidableEq Node] in
theorem Empty.keeps {later : ListHeads Node} {touched : List Node} (empty : heads.Empty head)
    (keeps : heads.Keeps later touched) (outside : head ∉ touched) : later.Empty head :=
  ⟨(keeps head outside).1.trans empty.next, (keeps head outside).2.trans empty.prev⟩

omit [DecidableEq Node] in
theorem Single.keeps {later : ListHeads Node} {touched : List Node}
    (single : heads.Single head node)
    (keeps : heads.Keeps later touched) (outside : head ∉ touched) (apart : node ∉ touched) :
    later.Single head node where
  first := (keeps head outside).1.trans single.first
  last := (keeps head outside).2.trans single.last
  next := (keeps node apart).1.trans single.next
  prev := (keeps node apart).2.trans single.prev

theorem init_empty : (heads.init node).Empty node :=
  ⟨update_self .., update_self ..⟩

theorem init_keeps : heads.Keeps (heads.init node) [node] := fun _ outside =>
  ⟨update_of_ne (List.ne_of_not_mem_cons outside) _ _,
    update_of_ne (List.ne_of_not_mem_cons outside) _ _⟩

theorem addBetween_single (other : node ≠ head) :
    (heads.addBetween node head head).Single head node where
  first := update_self ..
  last := by
    unfold addBetween
    dsimp only
    rw [update_of_ne other.symm, update_self]
  next := by
    unfold addBetween
    dsimp only
    rw [update_of_ne other, update_self]
  prev := update_self ..

theorem addBetween_keeps : heads.Keeps (heads.addBetween node head head) [head, node] := by
  intro one outside
  obtain ⟨notHead, notNode⟩ : one ≠ head ∧ one ≠ node := by simpa using outside
  unfold addBetween
  dsimp only
  rw [update_of_ne notHead, update_of_ne notNode, update_of_ne notNode, update_of_ne notHead]
  exact ⟨rfl, rfl⟩

theorem Empty.addTail_eq (empty : heads.Empty head) :
    heads.addTail node head = heads.addBetween node head head := by
  rw [addTail, empty.prev]

theorem Single.delInit_empty (single : heads.Single head node) (other : node ≠ head) :
    (heads.delInit node).Empty head := by
  constructor
  · rw [delInit, single.next, single.prev]
    unfold init
    dsimp only
    rw [update_of_ne other.symm, update_self]
  · rw [delInit, single.next, single.prev]
    unfold init
    dsimp only
    rw [update_of_ne other.symm, update_self]

theorem Single.delInit_keeps (single : heads.Single head node) :
    heads.Keeps (heads.delInit node) [head, node] := by
  intro one outside
  obtain ⟨notHead, notNode⟩ : one ≠ head ∧ one ≠ node := by simpa using outside
  rw [delInit, single.next, single.prev]
  unfold init
  dsimp only
  rw [update_of_ne notNode, update_of_ne notHead, update_of_ne notNode, update_of_ne notHead]
  exact ⟨rfl, rfl⟩

namespace Single

variable (single : heads.Single old node) (other : node ≠ old)

include single other

theorem replaceInit_eq :
    heads.replaceInit old new = init ⟨update (update heads.next new node) node new,
        update (update heads.prev node new) new node⟩ old := by
  unfold replaceInit
  dsimp only
  rw [update_self, update_self, single.first, update_of_ne other.symm, single.last]

theorem replaceInit_single (fresh : new ≠ old) (apart : new ≠ node) :
    (heads.replaceInit old new).Single new node := by
  rw [single.replaceInit_eq other]
  unfold init
  constructor
  · dsimp only
    rw [update_of_ne fresh, update_of_ne apart, update_self]
  · dsimp only
    rw [update_of_ne fresh, update_self]
  · dsimp only
    rw [update_of_ne other, update_self]
  · dsimp only
    rw [update_of_ne other, update_of_ne apart.symm, update_self]

theorem replaceInit_keeps : heads.Keeps (heads.replaceInit old new) [old, new, node] := by
  intro one outside
  obtain ⟨notOld, notNew, notNode⟩ : one ≠ old ∧ one ≠ new ∧ one ≠ node := by simpa using outside
  rw [single.replaceInit_eq other]
  unfold init
  dsimp only
  rw [update_of_ne notOld, update_of_ne notNode, update_of_ne notNew,
    update_of_ne notOld, update_of_ne notNew, update_of_ne notNode]
  exact ⟨rfl, rfl⟩

end Single

end ListHeads
