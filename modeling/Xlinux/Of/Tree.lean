/-
This file models the device tree that the kernel walks over: nodes with a name,
a phandle, properties and three links (`include/of.h`). `__of_find_all_nodes`
(`of/base.c`) finds the next node from the links alone. On a tree it goes through
the nodes in preorder, and `of_find_node_by_phandle` finds the first one with a
phandle.
-/

import Xlinux.Kernel

namespace Xlinux

/-! ### The model -/

/-- `struct property`. The value is what the blob has from the property's value on. -/
structure Property where
  name : String
  length : Nat
  value : List UInt8
  deriving DecidableEq, Repr

/-- `struct device_node`, without what no modelled function reads. -/
structure DeviceNode where
  phandle : UInt32
  fullName : List UInt8
  properties : List Property
  parent : Option UInt64
  child : Option UInt64
  sibling : Option UInt64
  flags : UInt64
  deriving DecidableEq, Repr

/-- The nodes by their addresses, and `of_root`. -/
structure DeviceTree where
  node : UInt64 → DeviceNode
  root : UInt64

/-- `__of_find_property`. -/
def ofFindProperty (np : DeviceNode) (name : String) : Option Property :=
  np.properties.find? (·.name = name)

/-- `OF_DETACHED`. -/
def ofDetached : UInt64 := 2

/-- `of_node_check_flag`. -/
def ofNodeCheckFlag (n : DeviceNode) (flag : UInt64) : Bool := n.flags >>> flag &&& 1 ≠ 0

/-- The loop `while (np->parent && !np->sibling)` of `__of_find_all_nodes` and what follows it. -/
def walkBackUp (tree : DeviceTree) : Nat → UInt64 → Kernel (Option UInt64)
  | 0, _ => throw .endless
  | turns + 1, np =>
    match (tree.node np).parent, (tree.node np).sibling with
    | some parent, none => walkBackUp tree turns parent
    | _, sibling => return sibling

/-- `__of_find_all_nodes`. -/
def ofFindAllNodes (tree : DeviceTree) : Option UInt64 → Kernel (Option UInt64)
  | none => return tree.root
  | some prev =>
    match (tree.node prev).child with
    | some child => return child
    | none => walkBackUp tree maxTurns prev

/-- The loop of `of_find_node_by_phandle`. -/
def findPhandleLoop (tree : DeviceTree) (handle : UInt32) : Nat → Option UInt64 →
    Kernel (Option UInt64)
  | _, none => return none
  | 0, some _ => throw .endless
  | turns + 1, some np => do
    if (tree.node np).phandle = handle ∧ !ofNodeCheckFlag (tree.node np) ofDetached then
      return some np
    else findPhandleLoop tree handle turns (← ofFindAllNodes tree (some np))

/-- `of_find_node_by_phandle`. -/
def ofFindNodeByPhandle (tree : DeviceTree) (handle : UInt32) : Kernel (Option UInt64) := do
  if handle = 0 then return none else
  findPhandleLoop tree handle maxTurns (← ofFindAllNodes tree none)

/-! ### Trees -/

/-- Siblings: the first one, what is below it, and the ones after it. -/
inductive Forest
  | nil
  | cons (np : UInt64) (below rest : Forest)

/-- The nodes in preorder. -/
def Forest.nodes : Forest → List UInt64
  | nil => []
  | cons np below rest => np :: (below.nodes ++ rest.nodes)

/-- The links are those of siblings with this parent, beginning with the first one. -/
def Threaded (tree : DeviceTree) (parent : Option UInt64) : Option UInt64 → Forest → Prop
  | first, .nil => first = none
  | first, .cons np below rest => first = some np ∧ (tree.node np).parent = parent ∧
    Threaded tree np (tree.node np).child below ∧ Threaded tree parent (tree.node np).sibling rest

/-- The links are those of a tree with these nodes below its root, and no node is detached. -/
structure Unflattened (tree : DeviceTree) (below : Forest) : Prop where
  threaded : Threaded tree none tree.root (.cons tree.root below .nil)
  nodup : (tree.root :: below.nodes).Nodup
  attached : ∀ np ∈ tree.root :: below.nodes, ofNodeCheckFlag (tree.node np) ofDetached = false

/-- From a node on, `__of_find_all_nodes` gives these nodes and then `NULL`. -/
inductive Visits (tree : DeviceTree) : Option UInt64 → List UInt64 → Prop
  | done : Visits tree none []
  | next {np : UInt64} {after : Option UInt64} {rest : List UInt64}
      (found : ofFindAllNodes tree (some np) = .ok after) (tail : Visits tree after rest) :
      Visits tree (some np) (np :: rest)

variable {tree : DeviceTree} {below : Forest}

theorem length_le_maxTurns {nodes : List UInt64} (nodup : nodes.Nodup) :
    nodes.length ≤ maxTurns := by
  have small : (nodes.map UInt64.toNat).toFinset ⊆ Finset.range maxTurns := by
    intro addr mem
    obtain ⟨np, -, rfl⟩ := List.mem_map.mp (List.mem_toFinset.mp mem)
    exact Finset.mem_range.mpr np.toNat_lt
  have counted := Finset.card_le_card small
  rwa [List.toFinset_card_of_nodup (nodup.map fun _ _ => UInt64.toNat.inj), List.length_map,
    Finset.card_range] at counted

theorem length_le_flatMap {α β : Type} (f : α → List β) (nonempty : ∀ a, f a ≠ []) (l : List α) :
    l.length ≤ (l.flatMap f).length := by
  induction l with
  | nil => rfl
  | cons a l ih =>
    have first := List.length_pos_iff.mpr (nonempty a)
    rw [List.flatMap_cons, List.length_append, List.length_cons]
    omega

/-- A node stands behind its siblings, and behind the last one whatever comes after the parent. -/
theorem walkBackUp_sibling {parent after : Option UInt64} {depth turns : Nat}
    (leaves : ∀ np, (tree.node np).parent = parent → (tree.node np).sibling = none →
      ∀ turns > depth, walkBackUp tree turns np = .ok after)
    {np : UInt64} (up : (tree.node np).parent = parent) (enough : turns > depth) :
    walkBackUp tree turns np = .ok ((tree.node np).sibling <|> after) := by
  cases last : (tree.node np).sibling with
  | none => exact leaves np up last turns enough
  | some sibling =>
    obtain ⟨turns, rfl⟩ := Nat.exists_eq_add_of_lt enough
    unfold walkBackUp
    rw [last]
    cases (tree.node np).parent <;> rfl

/-- The walk goes through siblings and all that is below them, and then on with what comes after
them. -/
theorem Threaded.visits {parent first after : Option UInt64} {forest : Forest} {depth : Nat}
    {tail : List UInt64} (threaded : Threaded tree parent first forest)
    (fits : depth + forest.nodes.length ≤ maxTurns)
    (leaves : ∀ np, (tree.node np).parent = parent → (tree.node np).sibling = none →
      ∀ turns > depth, walkBackUp tree turns np = .ok after)
    (rest : Visits tree after tail) : Visits tree (first <|> after) (forest.nodes ++ tail) := by
  induction forest generalizing parent first after depth tail with
  | nil =>
    rw [show first = none from threaded]
    exact rest
  | cons np below others ihBelow ihOthers =>
    obtain ⟨rfl, up, children, siblings⟩ := threaded
    rw [Forest.nodes, List.length_cons, List.length_append] at fits
    have behind := ihOthers siblings (by omega) leaves rest
    have back :
        ∀ turns > depth, walkBackUp tree turns np = .ok ((tree.node np).sibling <|> after) :=
      fun _ => walkBackUp_sibling leaves up
    have inside := ihBelow children (show depth + 1 + below.nodes.length ≤ maxTurns by omega)
      (fun _ up last turns enough => by
        obtain ⟨turns, rfl⟩ := Nat.exists_eq_add_of_lt enough
        rw [walkBackUp, up, last]
        exact back _ (by omega)) behind
    rw [Forest.nodes, List.cons_append, List.append_assoc]
    refine .next ?_ inside
    rw [ofFindAllNodes]
    cases (tree.node np).child with
    | none => exact back maxTurns (by omega)
    | some child => rfl

/-- The walk from the root. -/
theorem Unflattened.visits (unflattened : Unflattened tree below) :
    Visits tree tree.root (tree.root :: below.nodes) := by
  have walked := unflattened.threaded.visits
    (show 0 + _ ≤ maxTurns by simpa [Forest.nodes] using length_le_maxTurns unflattened.nodup)
    (fun np up last turns enough => by
      obtain ⟨turns, rfl⟩ := Nat.exists_eq_add_of_lt enough
      rw [walkBackUp, up, last]
      rfl) .done
  simpa [Forest.nodes] using walked

theorem findPhandleLoop_of_visits {handle : UInt32} {first : Option UInt64} {nodes : List UInt64}
    {turns : Nat} (visits : Visits tree first nodes) (enough : nodes.length ≤ turns)
    (attached : ∀ np ∈ nodes, ofNodeCheckFlag (tree.node np) ofDetached = false) :
    findPhandleLoop tree handle turns first =
      .ok (nodes.find? fun np => (tree.node np).phandle = handle) := by
  induction visits generalizing turns with
  | done => cases turns <;> rfl
  | @next np after rest found tail ih =>
    obtain ⟨turns, rfl⟩ := Nat.exists_eq_add_of_lt enough
    have rest := ih (Nat.le_of_succ_le_succ enough) fun np mem => attached np (.tail _ mem)
    by_cases here : (tree.node np).phandle = handle
    · simp [findPhandleLoop, attached np List.mem_cons_self, here]
      rfl
    · simp [findPhandleLoop, here, found]
      exact rest

theorem Unflattened.findPhandle (unflattened : Unflattened tree below) {handle : UInt32}
    (nonzero : handle ≠ 0) : ofFindNodeByPhandle tree handle =
      .ok ((tree.root :: below.nodes).find? fun np => (tree.node np).phandle = handle) := by
  rw [ofFindNodeByPhandle, if_neg nonzero]
  exact findPhandleLoop_of_visits unflattened.visits (length_le_maxTurns unflattened.nodup)
    unflattened.attached

/-- The walk visits every node once, in preorder, and ends, and a phandle leads to the first node in
this order that has it. -/
theorem ofFindAllNodes_preorder (tree : DeviceTree) (below : Forest)
    (unflattened : Unflattened tree below) :
    ofFindAllNodes tree none = .ok tree.root ∧ Visits tree tree.root (tree.root :: below.nodes) ∧
      (tree.root :: below.nodes).Nodup ∧ ∀ handle ≠ 0, ofFindNodeByPhandle tree handle =
        .ok ((tree.root :: below.nodes).find? fun np => (tree.node np).phandle = handle) :=
  ⟨rfl, unflattened.visits, unflattened.nodup, fun _ => unflattened.findPhandle⟩

/-- A property of one cell. -/
def cellsProperty (count : UInt8) : Property := ⟨"#cells", 4, [0, 0, 0, count]⟩

/-- A root with two nodes below it, the first of them with two nodes that are populated. The root
has a list of phandles. -/
def familyTree : DeviceTree where
  node addr :=
    if addr = 1 then
      ⟨0, [], [⟨"list", 24,
          [0, 0, 0, 7, 0, 0, 0, 9, 0, 0, 0, 0, 0, 0, 0, 8, 0, 0, 0, 1, 0, 0, 0, 2]⟩],
        none, some 2, none, 0⟩
    else if addr = 2 then ⟨0, [97], [], some 1, some 3, some 5, 0⟩
    else if addr = 3 then ⟨7, [98], [cellsProperty 1], some 2, none, some 4, 8⟩
    else if addr = 4 then ⟨8, [99], [cellsProperty 2], some 2, none, none, 8⟩
    else ⟨7, [100], [], some 1, none, none, 0⟩
  root := 1

theorem unflattened_familyTree : Unflattened familyTree
    (.cons 2 (.cons 3 .nil (.cons 4 .nil .nil)) (.cons 5 .nil .nil)) where
  threaded := ⟨rfl, rfl, ⟨rfl, rfl, ⟨rfl, rfl, rfl, rfl, rfl, rfl, rfl⟩, rfl, rfl, rfl, rfl⟩, rfl⟩
  nodup := show [(1 : UInt64), 2, 3, 4, 5].Nodup by decide
  attached := by
    simp only [familyTree, Forest.nodes, List.nil_append, List.append_nil, List.cons_append,
      List.forall_mem_cons]
    exact ⟨rfl, rfl, rfl, rfl, rfl, nofun⟩

theorem ofFindAllNodes_preorder_family :
    Visits familyTree (some 1) [1, 2, 3, 4, 5] ∧
      ofFindNodeByPhandle familyTree 7 = .ok (some 3) := by
  have walked := ofFindAllNodes_preorder _ _ unflattened_familyTree
  exact ⟨walked.2.1, walked.2.2.2 7 (by decide)⟩

end Xlinux
