/-
This file models `vma/vma.c`: the free and the busy areas of the kernel's virtual
address space. Both kinds are in a red-black tree and in a list sorted by
address; a free node has the size of the largest area in its subtree. The
callbacks of the free tree are those of `RB_DECLARE_CALLBACKS_MAX`.
-/

import Xlinux.Rbtree.Augmented

namespace Xlinux

open RedBlack
open Function (update)

/-- `va_start` and `va_end` of `struct vmap_area`. -/
structure VmapArea where
  vaStart : UInt64
  vaEnd : UInt64
  deriving DecidableEq, Repr

/-- The areas by the address of their nodes. -/
abbrev VmapAreas := UInt64 → VmapArea

/-- `va_size`. -/
def vaSize (va : VmapArea) : UInt64 := va.vaEnd - va.vaStart

/-- The value of which a free node has the maximum over its subtree. -/
def sizeAt (areas : VmapAreas) (node : UInt64) : UInt64 := vaSize (areas node)

/-! ### The search -/

/-- `get_subtree_max_size`. -/
def getSubtreeMaxSize (node : UInt64) : RbM UInt64 UInt64 := do
  if node ≠ 0 then return (← deref node).entry else return 0

/-- Where an allocation would start in an area. -/
def nvaStartAddr (va : VmapArea) (align vstart : UInt64) : UInt64 :=
  if va.vaStart > vstart then alignTo va.vaStart align else alignTo vstart align

/-- `is_within_this_va`. -/
def isWithinThisVa (va : VmapArea) (size align vstart : UInt64) : Bool :=
  let start := nvaStartAddr va align vstart
  if start + size < start ∨ start < vstart then false else start + size ≤ va.vaEnd

/-- What `find_vmap_lowest_match` is called with. -/
structure VmapRequest where
  size : UInt64
  align : UInt64
  vstart : UInt64

/-- `length`: the size with the overhead for the alignment. -/
def VmapRequest.length (request : VmapRequest) : UInt64 := request.size + request.align - 1

def VmapRequest.within (request : VmapRequest) (va : VmapArea) : Bool :=
  isWithinThisVa va request.size request.align request.vstart

/-- The inner loop of `find_vmap_lowest_match`: an area that it returns, or the node with which the
outer loop goes on, which may be `NULL`. -/
def rollBackLoop (areas : VmapAreas) (request : VmapRequest) :
    Nat → UInt64 → RbM UInt64 (UInt64 ⊕ UInt64)
  | 0, _ => throw .endless
  | turns + 1, node => do
    let node ← rbParent node
    if node = 0 then return .inr 0
    else if request.within (areas node) then return .inl node
    else
      let right ← rbChild .right node
      if (← getSubtreeMaxSize right) ≥ request.length ∧ request.vstart ≤ (areas node).vaStart then
        return .inr right
      else rollBackLoop areas request turns node

/-- The outer loop of `find_vmap_lowest_match`, which has no other way out than `return va`. -/
def lowestMatchLoop (areas : VmapAreas) (request : VmapRequest) : Nat → UInt64 → RbM UInt64 UInt64
  | 0, _ => throw .endless
  | turns + 1, node => do
    let left ← rbChild .left node
    if (← getSubtreeMaxSize left) ≥ request.length ∧ request.vstart < (areas node).vaStart then
      lowestMatchLoop areas request turns left
    else if request.within (areas node) then return node
    else
      let right ← rbChild .right node
      if (← getSubtreeMaxSize right) ≥ request.length then
        lowestMatchLoop areas request turns right
      else
        match ← rollBackLoop areas request maxTurns node with
        | .inl va => return va
        | .inr node => lowestMatchLoop areas request turns node

/-- `find_vmap_lowest_match`. -/
def findVmapLowestMatch (areas : VmapAreas) (request : VmapRequest) : RbM UInt64 UInt64 := do
  lowestMatchLoop areas request maxTurns (← get).rbNode

/-! ### The two trees -/

/-- `free_vmap_area_root` with `free_vmap_area_list`, or `vmap_area_root` with `vmap_area_list`. -/
inductive VmapRoot
  | free
  | busy
  deriving DecidableEq, Repr

def VmapRoot.other : VmapRoot → VmapRoot
  | .free => .busy
  | .busy => .free

/-- The areas with their nodes, and the trees and lists that they are in. The word of a node beside
its links is `subtree_max_size` in the free tree and `vm` in the busy one. -/
structure VmapSpace where
  areas : VmapAreas
  nodes : UInt64 → RbNode UInt64
  root : VmapRoot → UInt64
  list : VmapRoot → List UInt64
  vmapInitialized : Bool

/-- Code that works on the areas and may stop the kernel. -/
abbrev VmapM := StateT VmapSpace Kernel

/-- Work on one of the trees. -/
def onTree {β : Type} (root : VmapRoot) (code : RbM UInt64 β) : VmapM β := fun space => do
  let (value, tree) ← code ⟨space.nodes, space.root root⟩
  return (value, { space with
    nodes := tree.nodes, root := update space.root root tree.rbNode })

/-- Change a list. -/
def onList (root : VmapRoot) (change : List UInt64 → List UInt64) : VmapM Unit :=
  modify fun space => { space with
    list := update space.list root (change (space.list root)) }

/-- Write to an area. -/
def setArea (ptr : UInt64) (va : VmapArea) : VmapM Unit :=
  modify fun space => { space with areas := update space.areas ptr va }

/-- `BUG_ON`. -/
def bugOn (condition : Bool) : VmapM Unit := if condition then throw .bug else pure ()

/-- Memory for an area that `kmem_cache_alloc` hands out, with what is in it; `NULL` if there is
none. -/
structure FreshArea where
  ptr : UInt64
  va : VmapArea
  node : RbNode UInt64

/-- `kmem_cache_alloc(vmap_area_cachep, …)`. -/
def kmemCacheAllocArea (fresh : FreshArea) : VmapM UInt64 := do
  if fresh.ptr ≠ 0 then
    modify fun space => { space with
      areas := update space.areas fresh.ptr fresh.va
      nodes := update space.nodes fresh.ptr fresh.node }
  return fresh.ptr

/-! ### Linking and unlinking -/

/-- `unlink_va`, from the free tree. -/
def unlinkVa (va : UInt64) : VmapM Unit := do
  bugOn ((← onTree .free (deref va)).rbParentColor = va)
  let areas := (← get).areas
  onTree .free (rbEraseWith (maxCallbacks (sizeAt areas)) va)
  onList .free fun list => list.erase va
  onTree .free (modifyNode va fun rb => { rb with rbParentColor := va })

/-- `augment_tree_propagate_from`. -/
def augmentTreePropagateFrom (va : UInt64) : VmapM Unit := do
  let areas := (← get).areas
  onTree .free (maxPropagate (sizeAt areas) va 0)

/-- The side of an area on which another one is, if they do not overlap. -/
def vaSide (va tmpVa : VmapArea) : Option Side :=
  if va.vaStart < tmpVa.vaEnd ∧ va.vaEnd ≤ tmpVa.vaStart then some .left
  else if va.vaEnd > tmpVa.vaStart ∧ va.vaStart ≥ tmpVa.vaEnd then some .right
  else none

/-- The loop of `find_va_links`. -/
def findVaLinksLoop (areas : VmapAreas) (va : VmapArea) :
    Nat → UInt64 → RbM UInt64 (UInt64 × RbLink)
  | 0, _ => throw .endless
  | turns + 1, node => do
    match vaSide va (areas node) with
    | none => throw (.panic "vmalloc bug: 0x%lx-0x%lx overlaps with 0x%lx-0x%lx")
    | some side =>
      let next ← rbChild side node
      if next ≠ 0 then findVaLinksLoop areas va turns next
      else return (node, .child node side)

/-- `find_va_links`: from a node of the tree, or from its root if that is `NULL`. -/
def findVaLinks (areas : VmapAreas) (va : VmapArea) (start : UInt64) :
    RbM UInt64 (UInt64 × RbLink) := do
  if start ≠ 0 then findVaLinksLoop areas va maxTurns start
  else
    let root := (← get).rbNode
    if root = 0 then return (0, .root)
    else findVaLinksLoop areas va maxTurns root

/-- `list_add` behind the place that `link_va` looks up: behind the parent, or before it. -/
def listAdd (va parent : UInt64) (link : RbLink) (list : List UInt64) : List UInt64 :=
  if parent ≠ 0 then
    list.flatMap fun node =>
      if node = parent then
        if link = .child parent .right then [node, va] else [va, node]
      else [node]
  else va :: list

/-- The repair of the tree in `link_va`: in the free tree, the maximum of the new node is set to
zero then. -/
def insertVa (root : VmapRoot) (va : UInt64) : VmapM Unit :=
  match root with
  | .free => do
    let areas := (← get).areas
    onTree .free (rbInsert (maxRotate (sizeAt areas)) va)
    onTree .free (modifyNode va fun rb => { rb with entry := 0 })
  | .busy => onTree .busy (rbInsertColor va)

/-- `link_va`. -/
def linkVa (root : VmapRoot) (va parent : UInt64) (link : RbLink) : VmapM Unit := do
  onTree root (rbLinkNode va parent link)
  insertVa root va
  onList root (listAdd va parent link)

/-- `insert_vmap_area_augment`. -/
def insertVmapAreaAugment (va start : UInt64) : VmapM Unit := do
  let areas := (← get).areas
  let (parent, link) ← onTree .free (findVaLinks areas (areas va) start)
  linkVa .free va parent link
  augmentTreePropagateFrom va

/-- `insert_vmap_area`. -/
def insertVmapArea (va : UInt64) : VmapM Unit := do
  let areas := (← get).areas
  let (parent, link) ← onTree .busy (findVaLinks areas (areas va) 0)
  linkVa .busy va parent link

/-! ### Allocation -/

/-- `enum fit_type`. -/
inductive FitType
  | nothingFit
  | flFitType
  | leFitType
  | reFitType
  | neFitType
  deriving DecidableEq, Repr

/-- `classify_va_fit_type`. -/
def classifyVaFitType (va : VmapArea) (nvaStart size : UInt64) : FitType :=
  if nvaStart < va.vaStart ∨ nvaStart + size > va.vaEnd then .nothingFit
  else if va.vaStart = nvaStart then
    if va.vaEnd = nvaStart + size then .flFitType else .leFitType
  else if va.vaEnd = nvaStart + size then .reFitType
  else .neFitType

/-- `adjust_va_to_fit_type`: whether it could be done. -/
def adjustVaToFitType (lva : FreshArea) (ptr nvaStart size : UInt64) (type : FitType) :
    VmapM Bool := do
  let va := (← get).areas ptr
  match type with
  | .nothingFit => return false
  | .flFitType =>
    unlinkVa ptr
    return true
  | .leFitType =>
    setArea ptr { va with vaStart := va.vaStart + size }
    augmentTreePropagateFrom ptr
    return true
  | .reFitType =>
    setArea ptr { va with vaEnd := nvaStart }
    augmentTreePropagateFrom ptr
    return true
  | .neFitType =>
    let left ← kmemCacheAllocArea lva
    if left = 0 then return false
    else
      setArea left ⟨va.vaStart, nvaStart⟩
      setArea ptr { va with vaStart := nvaStart + size }
      augmentTreePropagateFrom ptr
      insertVmapAreaAugment left ptr
      return true

/-- `__alloc_vmap_area`: the start of the block, or `vend`. -/
def allocVmapBlock (lva : FreshArea) (request : VmapRequest) (vend : UInt64) : VmapM UInt64 := do
  let areas := (← get).areas
  let ptr ← onTree .free (findVmapLowestMatch areas request)
  if ptr = 0 then return vend
  else
    let nvaStart := nvaStartAddr (areas ptr) request.align request.vstart
    if nvaStart + request.size > vend then return vend
    else
      let type := classifyVaFitType (areas ptr) nvaStart request.size
      bugOn (type = .nothingFit)
      if ← adjustVaToFitType lva ptr nvaStart request.size type then return nvaStart
      else return vend

/-- `IS_ALIGNED`. -/
def isAligned (x a : UInt64) : Bool := x &&& (a - 1) = 0

/-- `alloc_vmap_area`: the area, or nothing for an error. -/
def allocVmapArea (fresh lva : FreshArea) (request : VmapRequest) (vend : UInt64) :
    VmapM (Option UInt64) := do
  if !(← get).vmapInitialized then return none
  else
    let va ← kmemCacheAllocArea fresh
    if va = 0 then return none
    else
      let addr ← allocVmapBlock lva request vend
      if addr = vend then throw (.panic "overflow!")
      else
        setArea va ⟨addr, addr + request.size⟩
        onTree .busy (modifyNode va fun rb => { rb with entry := 0 })
        insertVmapArea va
        bugOn (!isAligned addr request.align)
        bugOn (addr < request.vstart)
        bugOn (addr + request.size > vend)
        return some va

/-- `get_count_order_long`. -/
def getCountOrderLong (l : UInt64) : Int :=
  if l = 0 then -1
  else if l &&& (l - 1) ≠ 0 then fls64 l
  else fls64 l - 1

/-- `VM_IOREMAP`. -/
def vmIoremap : UInt64 := 1

/-- `IOREMAP_MAX_ORDER`. -/
def ioremapMaxOrder : Int := 19

/-- `VMALLOC_START`. -/
def vmallocStart : UInt64 := 0xffffffd000000000

/-- `VMALLOC_END`. -/
def vmallocEnd : UInt64 := 0xffffffdfffffffff

/-- The alignment that `__get_vm_area_node` asks for. -/
def vmAlign (size align flags : UInt64) : UInt64 :=
  if flags &&& vmIoremap ≠
    0 then oneShl (min (max (getCountOrderLong size) 12) ioremapMaxOrder).toNat
  else align

/-- `struct vm_struct`. -/
structure VmStruct where
  addr : UInt64
  size : UInt64
  flags : UInt64
  deriving DecidableEq, Repr

/-- A call of `get_vm_area`, with the memory that the allocators hand out. -/
structure VmapCall where
  size : UInt64
  flags : UInt64
  area : UInt64
  va : FreshArea
  lva : FreshArea

/-- `__get_vm_area_node`. -/
def getVmAreaNode (call : VmapCall) (align start vend : UInt64) : VmapM (Option VmStruct) := do
  let size := pageAlign call.size
  if size = 0 then return none
  else
    let align := vmAlign size align call.flags
    if call.area = 0 then return none
    else
      match ← allocVmapArea call.va call.lva ⟨size, align, start⟩ vend with
      | none => return none
      | some ptr =>
        let va := (← get).areas ptr
        onTree .busy (modifyNode ptr fun rb => { rb with entry := call.area })
        return some ⟨va.vaStart, va.vaEnd - va.vaStart, call.flags⟩

/-- `get_vm_area`. -/
def getVmArea (call : VmapCall) : VmapM (Option VmStruct) :=
  getVmAreaNode call 1 vmallocStart vmallocEnd

/-- `vmap_init_free_space`. -/
def vmapInitFreeSpace (free : FreshArea) : VmapM Unit := do
  let ptr ← kmemCacheAllocArea { free with va := ⟨0, 0⟩, node := ⟨0, 0, 0, 0⟩ }
  if ptr = 0 then throw (.panic "bad cache for vmap_area!")
  else
    setArea ptr ⟨1, 0xffffffffffffffff⟩
    insertVmapAreaAugment ptr 0

/-- `init_module`. -/
def vmaInit (free : FreshArea) : VmapM Unit := do
  vmapInitFreeSpace free
  modify fun space => { space with vmapInitialized := true }

end Xlinux
