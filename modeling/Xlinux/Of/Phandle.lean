/-
This file models lists of phandles (`of/base.c`): a property holds entries, each of
them a phandle and as many argument cells as the node with that phandle says.
`of_parse_phandle_with_args` goes through the list with an iterator and gives the
node and the arguments of one entry.
-/

import Xlinux.Of.Tree

namespace Xlinux

open List

/-! ### The model -/

/-- `EOVERFLOW`. -/
def eoverflow : Int := 75

/-- `be32_to_cpup`. -/
def be32ToCpup : List UInt8 → UInt32
  | a :: b :: c :: d :: _ =>
    a.toUInt32 <<< 24 ||| b.toUInt32 <<< 16 ||| c.toUInt32 <<< 8 ||| d.toUInt32
  | _ => 0

/-- A cell of a value. -/
def Property.cell (prop : Property) (i : Nat) : UInt32 := be32ToCpup (prop.value.drop (4 * i))

/-- `of_property_read_u32_index`. -/
def ofPropertyReadU32Index (np : DeviceNode) (propname : String) (index : UInt32) :
    Except Int UInt32 :=
  match ofFindProperty np propname with
  | none => .error (-einval)
  | some prop =>
    if prop.length < ((index + 1) * 4).toNat then .error (-eoverflow)
    else .ok (prop.cell index.toNat)

/-- `of_property_read_u32`. -/
def ofPropertyReadU32 (np : DeviceNode) (propname : String) : Except Int UInt32 :=
  ofPropertyReadU32Index np propname 0

/-- `struct of_phandle_iterator`. The pointers are places in the list. -/
structure OfPhandleIterator where
  cellsName : Option String
  cellCount : Int
  list : Option Property
  listEnd : Nat
  phandleEnd : Nat
  cur : Nat
  curCount : UInt32
  phandle : UInt32
  node : Option UInt64

/-- `struct of_phandle_args`. -/
structure OfPhandleArgs where
  np : Option UInt64
  args : List UInt32

/-- `MAX_PHANDLE_ARGS`. -/
def maxPhandleArgs : Nat := 16

/-- `of_phandle_iterator_init`. Its callers do not look at the error code. -/
def ofPhandleIteratorInit (np : DeviceNode) (listName : String) (cellsName : Option String)
    (cellCount : Int) : OfPhandleIterator :=
  match ofFindProperty np listName with
  | none => ⟨none, 0, none, 0, 0, 0, 0, 0, none⟩
  | some list =>
    if cellCount < 0 ∧ cellsName = none then ⟨none, 0, none, 0, 0, 0, 0, 0, none⟩
    else ⟨cellsName, cellCount, list, list.length / 4, 0, 0, 0, 0, none⟩

/-- How many arguments `of_phandle_iterator_next` takes for a node. -/
def argumentCount (tree : DeviceTree) (cellCount : Int) : Option String → Option UInt64 →
    Kernel UInt32
  | none, _ => return UInt32.ofInt cellCount
  | some _, none => throw (.panic "could not find phandle")
  | some cellsName, some np =>
    match ofPropertyReadU32 (tree.node np) cellsName with
    | .error _ => throw (.panic "bad property!")
    | .ok count => return count

/-- `of_phandle_iterator_next`. -/
def ofPhandleIteratorNext (tree : DeviceTree) (it : OfPhandleIterator) :
    Kernel (Int × OfPhandleIterator) :=
  match it.list with
  | none => return (-enoent, { it with node := none })
  | some list =>
    if it.phandleEnd ≥ it.listEnd then return (-enoent, { it with node := none })
    else do
      let cur := it.phandleEnd + 1
      let phandle := list.cell it.phandleEnd
      if phandle = 0 then
        return (0, { it with cur, phandle, node := none, phandleEnd := cur, curCount := 0 })
      else
        let node ← ofFindNodeByPhandle tree phandle
        let count ← argumentCount tree it.cellCount it.cellsName node
        if cur + count.toNat > it.listEnd then throw (.panic "found")
        else
          return (0, { it with cur, phandle, node, phandleEnd :=
            cur + count.toNat, curCount := count })

/-- The loop of `__of_parse_phandle_with_args`. -/
def parsePhandleLoop (tree : DeviceTree) (index : Int) : Nat → Int → OfPhandleIterator →
    Kernel (Except Int OfPhandleArgs)
  | 0, _, _ => throw .endless
  | turns + 1, curIndex, it => do
    let (rc, it) ← ofPhandleIteratorNext tree it
    if rc ≠ 0 then return .error rc
    else if curIndex ≠ index then parsePhandleLoop tree index turns (curIndex + 1) it
    else if it.phandle = 0 then return .error (-enoent)
    else if maxPhandleArgs < it.curCount.toNat then throw .bug
    else
      return .ok ⟨it.node, (range it.curCount.toNat).map fun i =>
        (it.list.map (·.cell (it.cur + i))).getD 0⟩

/-- `of_parse_phandle_with_args`. A turn takes a cell of the list. -/
def ofParsePhandleWithArgs (tree : DeviceTree) (np : DeviceNode) (listName : String)
    (cellsName : Option String) (index : Int) : Kernel (Except Int OfPhandleArgs) :=
  if index < 0 then return .error (-einval)
  else
    let it := ofPhandleIteratorInit np listName cellsName (if cellsName = none then 0 else -1)
    parsePhandleLoop tree index (it.listEnd + 1) 0 it

/-! ### Lists of entries -/

/-- The cells of a value. -/
def Property.cells (prop : Property) : List UInt32 := (range (prop.length / 4)).map prop.cell

/-- An entry of a list. -/
structure PhandleEntry where
  phandle : UInt32
  args : List UInt32

def PhandleEntry.cells (entry : PhandleEntry) : List UInt32 := entry.phandle :: entry.args

/-- The node that an entry names, in a tree with these nodes. -/
def PhandleEntry.node (tree : DeviceTree) (nodes : List UInt64) (entry : PhandleEntry) :
    Option UInt64 :=
  nodes.find? fun np => (tree.node np).phandle = entry.phandle

/-- An entry is a zero phandle, or one of an existing node with as many arguments as that node
says. -/
def PhandleEntry.WellFormed (tree : DeviceTree) (nodes : List UInt64) (cellsName : String)
    (entry : PhandleEntry) : Prop :=
  entry.phandle = 0 ∧ entry.args = [] ∨ entry.phandle ≠ 0 ∧ entry.args.length ≤ maxPhandleArgs ∧
    ∃ np, entry.node tree nodes = some np ∧
      ofPropertyReadU32 (tree.node np) cellsName = .ok (UInt32.ofNat entry.args.length)

/-- What is to be returned for an entry. -/
def PhandleEntry.result (tree : DeviceTree) (nodes : List UInt64) :
    Option PhandleEntry → Except Int OfPhandleArgs
  | none => .error (-enoent)
  | some entry =>
    if entry.phandle = 0 then .error (-enoent) else .ok ⟨entry.node tree nodes, entry.args⟩

theorem Property.cell_of_drop {prop : Property} {place : Nat} {cell : UInt32} {rest : List UInt32}
    (left : prop.cells.drop place = cell :: rest) :
    place < prop.length / 4 ∧ prop.cell place = cell ∧ prop.cells.drop (place + 1) = rest := by
  have first : prop.cells[place]? = some cell := by
    rw [← head?_drop, left]
    rfl
  obtain ⟨small, read⟩ := List.getElem?_eq_some_iff.mp first
  rw [← tail_drop, left]
  exact ⟨by simpa [cells] using small, by simpa [cells] using read, rfl⟩

theorem Property.map_cell_of_drop {prop : Property} {place : Nat} {args rest : List UInt32}
    (left : prop.cells.drop place = args ++ rest) :
    (range args.length).map (fun i => prop.cell (place + i)) = args ∧
      prop.cells.drop (place + args.length) = rest := by
  induction args generalizing place with
  | nil => exact ⟨rfl, left⟩
  | cons cell args ih =>
    obtain ⟨-, read, behind⟩ := cell_of_drop left
    obtain ⟨same, after⟩ := ih behind
    rw [length_cons, range_succ_eq_map, map_cons, map_map, Nat.add_zero, read,
      Nat.add_comm args.length, ← Nat.add_assoc]
    refine ⟨congrArg (cell :: ·) (.trans ?_ same), after⟩
    exact map_congr_left fun i _ => congrArg prop.cell (Nat.add_right_comm place i 1)

/-- The iterator stands before these cells of a list. -/
structure OfPhandleIterator.At (it : OfPhandleIterator) (prop : Property) (cellsName : String)
    (left : List UInt32) : Prop where
  list : it.list = some prop
  listEnd : it.listEnd = prop.length / 4
  cellsName : it.cellsName = some cellsName
  left : prop.cells.drop it.phandleEnd = left

section Iterator

variable {tree : DeviceTree} {below : Forest} (unflattened : Unflattened tree below)
  {prop : Property} {cellsName : String} {it : OfPhandleIterator}

theorem OfPhandleIterator.At.done (before : it.At prop cellsName []) :
    ofPhandleIteratorNext tree it = .ok (-enoent, { it with node := none }) := by
  have ended : it.phandleEnd ≥ it.listEnd := by
    simpa [Property.cells, before.listEnd] using before.left
  rw [ofPhandleIteratorNext, before.list]
  exact if_pos ended

include unflattened

/-- A step takes an entry. -/
theorem OfPhandleIterator.At.next {entry : PhandleEntry} {rest : List UInt32}
    (before : it.At prop cellsName (entry.cells ++ rest))
    (formed : entry.WellFormed tree (tree.root :: below.nodes) cellsName) :
    ∃ after, ofPhandleIteratorNext tree it = .ok (0, after) ∧ after.At prop cellsName rest ∧
      after.phandle = entry.phandle ∧ (entry.phandle ≠ 0 →
        after.node = entry.node tree (tree.root :: below.nodes) ∧
        after.curCount.toNat = entry.args.length ∧ entry.args.length ≤ maxPhandleArgs ∧
        (range entry.args.length).map (fun i => prop.cell (after.cur + i)) = entry.args) := by
  obtain ⟨_, _, _, _, place, cur, curCount, phandle, node⟩ := it
  obtain ⟨rfl, rfl, rfl, left : prop.cells.drop place = _⟩ := before
  obtain ⟨small, read, behind⟩ := Property.cell_of_drop left
  obtain ⟨same, after⟩ := Property.map_cell_of_drop behind
  simp only [ofPhandleIteratorNext, if_neg (not_le.mpr small), read]
  rcases formed with ⟨zero, none⟩ | ⟨nonzero, few, np, found, count⟩
  · rw [if_pos zero]
    refine ⟨_, rfl, ⟨rfl, rfl, rfl, ?_⟩, rfl, absurd zero⟩
    simpa [none] using after
  · have counted : (UInt32.ofNat entry.args.length).toNat = entry.args.length :=
      UInt32.toNat_ofNat_of_lt' (few.trans_lt (by decide))
    have inside : ¬place + 1 + (UInt32.ofNat entry.args.length).toNat > prop.length / 4 := by
      have length := congrArg length behind
      simp only [Property.cells, length_drop, length_map, length_range, append_eq,
        length_append] at length
      omega
    rw [if_neg nonzero, unflattened.findPhandle nonzero, Kernel.ok_bind,
      show (tree.root :: below.nodes).find? _ = some np from found, argumentCount, count]
    simp only [Kernel.ok_bind, pure, Except.pure, if_neg inside]
    refine ⟨_, rfl, ⟨rfl, rfl, rfl, ?_⟩, rfl, fun _ => ⟨found.symm, counted, few, same⟩⟩
    rwa [← counted] at after

variable (entries : List PhandleEntry)
  (formed : ∀ entry ∈ entries, entry.WellFormed tree (tree.root :: below.nodes) cellsName)
include formed

/-- The loop goes through the entries up to the wanted one. -/
theorem parsePhandleLoop_eq {curIndex index turns : Nat} (at' : curIndex ≤ index)
    (before : it.At prop cellsName (entries.flatMap PhandleEntry.cells))
    (enough : entries.length < turns) :
    parsePhandleLoop tree index turns curIndex it =
      .ok (PhandleEntry.result tree (tree.root :: below.nodes) entries[index - curIndex]?) := by
  induction entries generalizing it curIndex turns with
  | nil =>
    obtain ⟨turns, rfl⟩ := Nat.exists_eq_add_of_lt enough
    rw [parsePhandleLoop, before.done]
    rfl
  | cons entry entries ih =>
    obtain ⟨turns, rfl⟩ := Nat.exists_eq_add_of_lt enough
    obtain ⟨_, ran, behind, phandle, rest⟩ := before.next unflattened (formed entry mem_cons_self)
    rw [parsePhandleLoop, ran, Kernel.ok_bind]
    simp only [ne_eq, not_true, if_false]
    by_cases here : curIndex = index
    · rw [here, Nat.sub_self, getElem?_cons_zero, PhandleEntry.result,
        if_neg (not_not.mpr rfl), phandle]
      split
      · rfl
      case isFalse nonzero =>
        obtain ⟨node, count, few, args⟩ := rest nonzero
        rw [count, if_neg few.not_gt, node, behind.list]
        exact congrArg (fun args => Except.ok (Except.ok (OfPhandleArgs.mk _ args))) args
    · rw [if_pos (by exact_mod_cast here)]
      obtain ⟨left, rfl⟩ := Nat.exists_eq_add_of_lt (lt_of_le_of_ne at' here)
      have found := ih (fun other mem => formed other (.tail _ mem))
        (show curIndex + 1 ≤ curIndex + left + 1 by omega) behind (Nat.lt_of_succ_lt_succ enough)
      rw [show curIndex + left + 1 - (curIndex + 1) = left by omega] at found
      rw [show curIndex + left + 1 - curIndex = left + 1 by omega]
      exact found

end Iterator

/-- `of_parse_phandle_with_args` gives the node and the arguments of an entry, or an error when the
phandle is zero or the list is too short. -/
theorem ofParsePhandleWithArgs_eq (tree : DeviceTree) (below : Forest)
    (unflattened : Unflattened tree below) (np : DeviceNode) (listName cellsName : String)
    (prop : Property) (has : ofFindProperty np listName = some prop) (entries : List PhandleEntry)
    (holds : prop.cells = entries.flatMap PhandleEntry.cells)
    (formed : ∀ entry ∈ entries, entry.WellFormed tree (tree.root :: below.nodes) cellsName)
    (index : Nat) :
    ofParsePhandleWithArgs tree np listName (some cellsName) index =
      .ok (PhandleEntry.result tree (tree.root :: below.nodes) entries[index]?) := by
  have start : (ofPhandleIteratorInit np listName (some cellsName) (-1)).At prop cellsName
      (entries.flatMap PhandleEntry.cells) := by
    rw [ofPhandleIteratorInit, has]
    exact ⟨rfl, rfl, rfl, holds⟩
  have few : entries.length ≤ prop.length / 4 := by
    have counted := length_le_flatMap PhandleEntry.cells (fun _ => cons_ne_nil _ _) entries
    rwa [← holds, Property.cells, length_map, length_range] at counted
  exact parsePhandleLoop_eq unflattened entries formed (Nat.zero_le index) start
    (start.listEnd ▸ Nat.lt_succ_of_le few)

/-- The third entry of a list whose second entry is empty. -/
theorem ofParsePhandleWithArgs_eq_third :
    ofParsePhandleWithArgs familyTree (familyTree.node 1) "list" "#cells" 2 =
      .ok (.ok ⟨some 4, [1, 2]⟩) := by
  refine ofParsePhandleWithArgs_eq _ _ unflattened_familyTree _ "list" "#cells" _ rfl
    [⟨7, [9]⟩, ⟨0, []⟩, ⟨8, [1, 2]⟩] (by decide) ?_ 2
  refine forall_mem_cons.mpr ⟨.inr ⟨by decide, by decide, 3, by decide, by decide⟩,
    forall_mem_cons.mpr ⟨.inl ⟨rfl, rfl⟩, forall_mem_singleton.mpr (.inr ?_)⟩⟩
  exact ⟨by decide, by decide, 4, by decide, by decide⟩

end Xlinux
