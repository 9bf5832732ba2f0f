/-
This file models how a resource is requested from its parent (`devres/devres.c`).
The children of a resource are in a list that is sorted by address; the walk of
`__request_resource` either finds the place of the new resource or a child that
is in its way. Both ends of a resource belong to it.
-/

import Mathlib

namespace Xlinux

open List

-- the ends of the `struct resource` at an address
variable (start stop : UInt64 → UInt64) (root new : UInt64)

/-- The walk of `__request_resource` through the list of children. -/
def requestResourceLoop : List UInt64 → Option UInt64 × List UInt64
  | [] => (none, [new])
  | tmp :: rest =>
    if start tmp > stop new then (none, new :: tmp :: rest)
    else if stop tmp < start new then
      ((requestResourceLoop rest).1, tmp :: (requestResourceLoop rest).2)
    else (some tmp, tmp :: rest)

/-- `__request_resource`: the conflict, or none, and the children of the root. -/
def requestResource (children : List UInt64) : Option UInt64 × List UInt64 :=
  if stop new < start new then (some root, children)
  else if start new < start root then (some root, children)
  else if stop new > stop root then (some root, children)
  else requestResourceLoop start stop new children

/-- Two resources have an address in common. -/
def Meets (one other : UInt64) : Prop := start one ≤ stop other ∧ start other ≤ stop one
  deriving Decidable

/-- A resource has an address, and all its addresses are addresses of the root. -/
def Placeable : Prop := start new ≤ stop new ∧ start root ≤ start new ∧ stop new ≤ stop root
  deriving Decidable

/-- The children are sorted, disjoint and inside the root. -/
structure Children (children : List UInt64) : Prop where
  placed : ∀ child ∈ children, Placeable start stop root child
  sorted : children.Pairwise fun one other => stop one < start other

/-- The place of a new child. -/
def insertChild (children : List UInt64) : List UInt64 :=
  children.orderedInsert (fun one other => start one ≤ start other) new

variable {start stop root new} {children : List UInt64} {child : UInt64}

theorem Children.tail (arranged : Children start stop root (child :: children)) :
    Children start stop root children :=
  ⟨(forall_mem_cons.mp arranged.placed).2, arranged.sorted.tail⟩

/-- What lies before the first child lies before every child. -/
theorem Children.before (arranged : Children start stop root (child :: children))
    (before : stop new < start child) {one : UInt64} (member : one ∈ child :: children) :
    stop new < start one := by
  rcases mem_cons.mp member with rfl | later
  · exact before
  · have next := rel_of_pairwise_cons arranged.sorted later
    exact UInt64.lt_trans before
      (UInt64.lt_of_le_of_lt (arranged.placed child mem_cons_self).1 next)

/-- A new resource that meets no child is put in its place. -/
theorem Children.insert (arranged : Children start stop root children)
    (placeable : Placeable start stop root new)
    (clear : ∀ one ∈ children, ¬Meets start stop new one) :
    requestResourceLoop start stop new children = (none, insertChild start new children) ∧
      Children start stop root (insertChild start new children) := by
  induction children with
  | nil => exact ⟨rfl, forall_mem_singleton.mpr placeable, pairwise_singleton _ _⟩
  | cons child rest ih =>
    unfold requestResourceLoop insertChild
    rw [orderedInsert_cons]
    have apart : stop new < start child ∨ stop child < start new := by
      by_contra neither
      obtain ⟨late, early⟩ := not_or.mp neither
      exact clear child mem_cons_self ⟨UInt64.not_lt.mp early, UInt64.not_lt.mp late⟩
    rcases apart with before | behind
    · rw [if_pos before, if_pos (UInt64.le_of_lt (UInt64.lt_of_le_of_lt placeable.1 before))]
      exact ⟨rfl, forall_mem_cons.mpr ⟨placeable, arranged.placed⟩,
        pairwise_cons.mpr ⟨fun one => arranged.before before, arranged.sorted⟩⟩
    · obtain ⟨ran, kept⟩ := ih arranged.tail (forall_mem_cons.mp clear).2
      have proper := arranged.placed child mem_cons_self
      have late := UInt64.lt_of_le_of_lt proper.1 behind
      rw [if_neg (UInt64.not_lt.mpr (UInt64.le_of_lt (UInt64.lt_of_lt_of_le late placeable.1))),
        if_pos behind, if_neg (UInt64.not_le.mpr late), ran]
      refine ⟨rfl, forall_mem_cons.mpr ⟨proper, kept.placed⟩,
        pairwise_cons.mpr ⟨fun one member => ?_, kept.sorted⟩⟩
      rcases (mem_orderedInsert _).mp member with rfl | old
      · exact behind
      · exact rel_of_pairwise_cons arranged.sorted old

/-- The first child in the way is found. -/
theorem Children.conflict (arranged : Children start stop root children)
    (meets : ∃ one ∈ children, Meets start stop new one) :
    requestResourceLoop start stop new children =
      (children.find? (Meets start stop new ·), children) := by
  induction children with
  | nil => exact absurd meets nofun
  | cons child rest ih =>
    obtain ⟨one, member, meet⟩ := meets
    have reached : ¬start child > stop new := fun before =>
      UInt64.not_lt.mpr meet.2 (arranged.before before member)
    unfold requestResourceLoop
    split_ifs with behind
    · have other : ¬Meets start stop new child := fun meets => UInt64.not_lt.mpr meets.1 behind
      have later : one ∈ rest := mem_of_ne_of_mem (by rintro rfl; exact other meet) member
      rw [ih arranged.tail ⟨one, later, meet⟩, find?_cons_of_neg (by simpa using other)]
    · rw [find?_cons_of_pos (by simpa using ⟨UInt64.not_lt.mp behind, UInt64.not_lt.mp reached⟩)]

/-- A resource that is not placeable is refused at once. -/
theorem requestResource_eq : requestResource start stop root new children =
    if Placeable start stop root new then requestResourceLoop start stop new children
    else (some root, children) := by
  unfold requestResource
  split
  case isTrue empty => exact (if_neg fun placeable => UInt64.not_lt.mpr placeable.1 empty).symm
  split
  case isTrue low => exact (if_neg fun placeable => UInt64.not_lt.mpr placeable.2.1 low).symm
  split
  case isTrue high => exact (if_neg fun placeable => UInt64.not_lt.mpr placeable.2.2 high).symm
  case isFalse filled above below =>
    exact (if_pos ⟨UInt64.not_lt.mp filled, UInt64.not_lt.mp above, UInt64.not_lt.mp below⟩).symm

/-- What a request should do: grant what is free, and else name what is in the way. -/
def requestSpec (start stop : UInt64 → UInt64) (root new : UInt64) (children : List UInt64) :
    Option UInt64 × List UInt64 :=
  if Placeable start stop root new then
    if ∃ one ∈ children, Meets start stop new one then
      (children.find? (Meets start stop new ·), children)
    else (none, insertChild start new children)
  else (some root, children)

theorem Children.requestResource (arranged : Children start stop root children) (new : UInt64) :
    requestResource start stop root new children = requestSpec start stop root new children ∧
      Children start stop root (requestSpec start stop root new children).2 := by
  rw [requestResource_eq, requestSpec]
  split
  case isFalse => exact ⟨rfl, arranged⟩
  case isTrue placeable =>
    split_ifs with meets
    · exact ⟨arranged.conflict meets, arranged⟩
    · exact arranged.insert placeable fun one member meet => meets ⟨one, member, meet⟩

/-- The children of a root after some requests. -/
def childrenAfter (start stop : UInt64 → UInt64) (root : UInt64) (news : List UInt64) :
    List UInt64 :=
  news.foldl (fun children one => (requestResource start stop root one children).2) []

/-- After any requests the children of a root are sorted, disjoint and inside it, and every further
request does what it should. -/
theorem requestResource_after (start stop : UInt64 → UInt64) (root : UInt64) (news : List UInt64)
    (new : UInt64) :
    Children start stop root (childrenAfter start stop root news) ∧
      requestResource start stop root new (childrenAfter start stop root news) =
        requestSpec start stop root new (childrenAfter start stop root news) := by
  have arranged : Children start stop root (childrenAfter start stop root news) := by
    refine foldlRecOn news _ ⟨nofun, Pairwise.nil⟩ fun before arranged one _ => ?_
    obtain ⟨same, _⟩ := arranged.requestResource one
    rwa [same]
  exact ⟨arranged, (arranged.requestResource new).1⟩

end Xlinux
