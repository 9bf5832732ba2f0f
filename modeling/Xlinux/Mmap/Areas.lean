/-
This file models the functions of `mm/mmap.c` that keep the areas of a process:
they are in a list sorted by address and in a red-black tree, in which every node
has the largest gap before an area of its subtree. `__vma_link_list` and
`arch_get_unmapped_area_topdown` are from `mm/util.c`, `vm_area_alloc` is from
`fork/fork.c`, and `generic_file_mmap`, which `call_mmap` calls, is from
`filemap/filemap.c`.
-/

import Xlinux.Rbtree.Augmented

namespace Xlinux

open RedBlack

/-! ### Areas -/

/-- `struct vm_area_struct`, without its node in the tree and `rb_subtree_gap`. -/
structure VmAreaStruct where
  vmStart : UInt64
  vmEnd : UInt64
  vmNext : UInt64
  vmPrev : UInt64
  vmFlags : UInt64
  vmPgoff : UInt64
  vmFile : UInt64
  vmOps : UInt64
  deriving DecidableEq, Repr

/-- The areas by their addresses. -/
abbrev VmAreas := UInt64 → VmAreaStruct

/-- What of `struct mm_struct` counts for the areas, with the areas and their nodes. The word of a
node beside its links is `rb_subtree_gap`. -/
structure MmStruct where
  areas : VmAreas
  nodes : UInt64 → RbNode UInt64
  mmRb : UInt64
  mmap : UInt64
  highestVmEnd : UInt64
  totalVm : UInt64
  dataVm : UInt64
  defFlags : UInt64

/-- Code that works on the areas of a process and may stop the kernel. -/
abbrev MmM := StateT MmStruct Kernel

/-- Work on the tree. -/
def onMmRb {β : Type} (code : RbM UInt64 β) : MmM β := fun mm => do
  let (value, tree) ← code ⟨mm.nodes, mm.mmRb⟩
  return (value, { mm with nodes := tree.nodes, mmRb := tree.rbNode })

/-- One area changed. -/
def VmAreas.write (areas : VmAreas) (vma : UInt64)
    (change : VmAreaStruct → VmAreaStruct) : VmAreas :=
  Function.update areas vma (change (areas vma))

/-- Write to an area. -/
def modifyVma (vma : UInt64) (change : VmAreaStruct → VmAreaStruct) : MmM Unit :=
  modify fun mm => { mm with areas := mm.areas.write vma change }

/-- `VM_READ`. -/
def vmRead : UInt64 := 0x1

/-- `VM_WRITE`. -/
def vmWrite : UInt64 := 0x2

/-- `VM_EXEC`. -/
def vmExec : UInt64 := 0x4

/-- `VM_SHARED`. -/
def vmShared : UInt64 := 0x8

/-- `VM_GROWSDOWN`. -/
def vmGrowsdown : UInt64 := 0x100

/-- `VM_GROWSUP`, which is `VM_NONE`. -/
def vmGrowsup : UInt64 := 0

/-- `VM_ACCOUNT`. -/
def vmAccount : UInt64 := 0x100000

/-- `VM_NORESERVE`. -/
def vmNoreserve : UInt64 := 0x200000

/-- `VM_DATA_DEFAULT_FLAGS`: read and write, and all three may be set. -/
def vmDataDefaultFlags : UInt64 := vmRead ||| vmWrite ||| 0x10 ||| 0x20 ||| 0x40

/-- `TASK_SIZE`. -/
def taskSize : UInt64 := 0x4000000000

/-- `stack_guard_gap`. -/
def stackGuardGap : UInt64 := 256 <<< pageShift

/-- `vm_start_gap`. -/
def vmStartGap (vma : VmAreaStruct) : UInt64 :=
  if vma.vmFlags &&& vmGrowsdown ≠ 0 then
    let vmStart := vma.vmStart - stackGuardGap
    if vmStart > vma.vmStart then 0 else vmStart
  else vma.vmStart

/-- `vm_end_gap`. -/
def vmEndGap (vma : VmAreaStruct) : UInt64 :=
  if vma.vmFlags &&& vmGrowsup ≠ 0 then
    let vmEnd := vma.vmEnd + stackGuardGap
    if vmEnd < vma.vmEnd then -pageSize else vmEnd
  else vma.vmEnd

/-- `vma_compute_gap`: the value of which a node has the maximum over its subtree. -/
def vmaComputeGap (areas : VmAreas) (vma : UInt64) : UInt64 :=
  let gap := vmStartGap (areas vma)
  if (areas vma).vmPrev ≠ 0 then
    let prevEnd := vmEndGap (areas (areas vma).vmPrev)
    if gap > prevEnd then gap - prevEnd else 0
  else gap

/-! ### Places in the tree -/

/-- What `find_vma_links` stores: the area before the place, and the place. -/
structure VmaLinks where
  prev : UInt64
  rbLink : RbLink
  rbParent : UInt64

/-- The loop of `find_vma_links`: nothing if an area overlaps. -/
def findVmaLinksLoop (areas : VmAreas) (addr stop : UInt64) :
    Nat → UInt64 → UInt64 → RbLink → RbM UInt64 (Option VmaLinks)
  | 0, _, _, _ => throw .endless
  | turns + 1, rbPrev, rbParent, rbLink => do
    let node ← readRbLink rbLink
    if node ≠ 0 then
      if (areas node).vmEnd > addr then
        if (areas node).vmStart < stop then return none
        else findVmaLinksLoop areas addr stop turns rbPrev node (.child node .left)
      else findVmaLinksLoop areas addr stop turns node node (.child node .right)
    else return some ⟨rbPrev, rbLink, rbParent⟩

/-- `find_vma_links`. -/
def findVmaLinks (addr stop : UInt64) : MmM (Option VmaLinks) := do
  let areas := (← get).areas
  onMmRb (findVmaLinksLoop areas addr stop maxTurns 0 0 .root)

/-- The loop of `find_vma`. -/
def findVmaLoop (areas : VmAreas) (addr : UInt64) : Nat → UInt64 → UInt64 → RbM UInt64 UInt64
  | 0, _, _ => throw .endless
  | turns + 1, rbNode, vma => do
    if rbNode ≠ 0 then
      if (areas rbNode).vmEnd > addr then
        if (areas rbNode).vmStart ≤ addr then return rbNode
        else findVmaLoop areas addr turns (← rbChild .left rbNode) rbNode
      else findVmaLoop areas addr turns (← rbChild .right rbNode) vma
    else return vma

/-- `find_vma`. The variable that is returned is not initialized: it starts with what happens to be
in its place. -/
def findVma (areas : VmAreas) (addr uninitialized : UInt64) : RbM UInt64 UInt64 := do
  findVmaLoop areas addr maxTurns (← get).rbNode uninitialized

/-! ### Linking -/

/-- `__vma_link_list`. -/
def vmaLinkList (vma prev : UInt64) : MmM Unit := do
  modifyVma vma fun area => { area with vmPrev := prev }
  let next ← (do
    if prev ≠ 0 then
      let next := ((← get).areas prev).vmNext
      modifyVma prev fun area => { area with vmNext := vma }
      pure next
    else
      let next := (← get).mmap
      modify fun mm => { mm with mmap := vma }
      pure next)
  modifyVma vma fun area => { area with vmNext := next }
  if next ≠ 0 then modifyVma next fun area => { area with vmPrev := vma }

/-- `vma_gap_update`. -/
def vmaGapUpdate (vma : UInt64) : MmM Unit := do
  let areas := (← get).areas
  onMmRb (maxPropagate (vmaComputeGap areas) vma 0)

/-- `vma_rb_insert`. -/
def vmaRbInsert (vma : UInt64) : MmM Unit := do
  let areas := (← get).areas
  onMmRb (rbInsert (maxRotate (vmaComputeGap areas)) vma)

/-- In `__vma_link_rb`, the gap that follows the new area. -/
def vmaUpdateNext (vma : UInt64) : MmM Unit := do
  let area := (← get).areas vma
  if area.vmNext ≠ 0 then vmaGapUpdate area.vmNext
  else modify fun mm => { mm with highestVmEnd := vmEndGap area }

/-- `__vma_link_rb`. -/
def vmaLinkRb (vma : UInt64) (links : VmaLinks) : MmM Unit := do
  vmaUpdateNext vma
  onMmRb (rbLinkNode vma links.rbParent links.rbLink)
  onMmRb (modifyNode vma fun rb => { rb with entry := 0 })
  vmaGapUpdate vma
  vmaRbInsert vma

/-- `vma_link`. -/
def vmaLink (vma : UInt64) (links : VmaLinks) : MmM Unit := do
  vmaLinkList vma links.prev
  vmaLinkRb vma links

/-! ### The operations -/

/-- `insert_vm_struct`. -/
def insertVmStruct (vma : UInt64) : MmM Int := do
  let area := (← get).areas vma
  match ← findVmaLinks area.vmStart area.vmEnd with
  | none => return -enomem
  | some links =>
    if area.vmOps = 0 then
      modifyVma vma fun area => { area with vmPgoff := area.vmStart >>> pageShift }
    vmaLink vma links
    return 0

/-- The address of `dummy_vm_ops`, which is not `NULL`. -/
def dummyVmOps : UInt64 := 8

/-- The address of `generic_file_vm_ops`, which is not `NULL`. -/
def genericFileVmOps : UInt64 := 16

/-- `vm_area_alloc`, with what `kmem_cache_alloc` returns. -/
def vmAreaAlloc (vma : UInt64) : MmM UInt64 := do
  if vma ≠ 0 then
    modify fun mm => { mm with
      areas := Function.update mm.areas vma ⟨0, 0, 0, 0, 0, 0, 0, dummyVmOps⟩
      nodes := Function.update mm.nodes vma ⟨0, 0, 0, 0⟩ }
  return vma

/-- What counts of `struct file`: its address, and whether `readpage` is set in `f_mapping`. -/
structure VmFile where
  ptr : UInt64
  readpage : Bool
  deriving DecidableEq, Repr

/-- `generic_file_mmap`. -/
def genericFileMmap (file : VmFile) (vma : UInt64) : MmM Int := do
  if !file.readpage then throw (.panic "a_ops has no readpage!")
  else
    modifyVma vma fun area => { area with vmOps := genericFileVmOps }
    return 0

/-- `accountable_mapping`. -/
def accountableMapping (vmFlags : UInt64) : Bool :=
  vmFlags &&& (vmNoreserve ||| vmShared ||| vmWrite) = vmWrite

/-- `mmap_region`. -/
def mmapRegion (file : VmFile) (addr len vmFlags pgoff vma : UInt64) : MmM UInt64 := do
  match ← findVmaLinks addr (addr + len) with
  | none => throw (.panic "can not find vma links!")
  | some links =>
    let vmFlags := if accountableMapping vmFlags then vmFlags ||| vmAccount else vmFlags
    let vma ← vmAreaAlloc vma
    if vma = 0 then throw (.panic "out of memory!")
    else
      modifyVma vma fun area => { area with
        vmStart := addr, vmEnd := addr + len, vmFlags := vmFlags, vmPgoff := pgoff }
      if file.ptr ≠ 0 then
        if vmFlags &&& vmShared ≠ 0 then throw (.panic "VM_SHARED!")
        else
          modifyVma vma fun area => { area with vmFile := file.ptr }
          let error ← genericFileMmap file vma
          if error ≠ 0 then throw (.panic "unmap and free vma!")
          else
            let area := (← get).areas vma
            if vmFlags ≠ area.vmFlags ∧ links.prev ≠ 0 then throw (.panic "vm_flags!")
            else if addr ≠ area.vmStart then throw .bug
            else
              vmaLink vma links
              return area.vmStart
      else if vmFlags &&& vmShared ≠ 0 then throw (.panic "vm shared!")
      else throw (.panic "bad arg!")

/-- `MAP_FIXED`. -/
def mapFixed : UInt64 := 0x10

/-- `offset_in_page`. -/
def offsetInPage (addr : UInt64) : UInt64 := addr &&& (pageSize - 1)

/-- `arch_get_unmapped_area_topdown`. -/
def archGetUnmappedAreaTopdown (addr flags : UInt64) : Kernel UInt64 :=
  if flags &&& mapFixed ≠ 0 then return addr
  else throw (.panic "%s: !")

/-- `get_unmapped_area`: the address, or an error as a word. -/
def getUnmappedArea (addr len flags : UInt64) : Kernel UInt64 := do
  if len > taskSize then return ofCInt (-enomem)
  else
    let addr ← archGetUnmappedAreaTopdown addr flags
    if isErrValue addr then throw (.panic "bad addr!")
    else if addr > taskSize - len then throw (.panic "out of memory!")
    else if offsetInPage addr ≠ 0 then throw (.panic "bad arg addr(%lx)!")
    else return addr

/-- `do_brk_flags`. -/
def doBrkFlags (addr len flags vma : UInt64) : MmM Int := do
  if flags &&& ~~~vmExec ≠ 0 then return -einval
  else
    let flags := flags ||| vmDataDefaultFlags ||| vmAccount ||| (← get).defFlags
    let mappedAddr ← getUnmappedArea addr len mapFixed
    if isErrValue mappedAddr then return toCInt mappedAddr
    else
      match ← findVmaLinks addr (addr + len) with
      | none => throw (.panic "find vma links error!")
      | some links =>
        let vma ← vmAreaAlloc vma
        if vma = 0 then throw (.panic "out of memory!")
        else
          modifyVma vma fun area => { area with
            vmOps := 0, vmStart := addr, vmEnd := addr + len, vmPgoff := addr >>> pageShift
            vmFlags := flags }
          vmaLink vma links
          modify fun mm => { mm with
            totalVm := mm.totalVm + (len >>> pageShift), dataVm := mm.dataVm + (len >>> pageShift) }
          return 0

/-- `expand_downwards`, and `expand_stack`, which calls it. -/
def expandDownwards (vma address : UInt64) : MmM Int := do
  let area := (← get).areas vma
  if address < area.vmStart then
    let grow := (area.vmStart - address) >>> pageShift
    if grow ≤ area.vmPgoff then
      modifyVma vma fun area => { area with vmStart := address, vmPgoff := area.vmPgoff - grow }
      vmaGapUpdate vma
  return 0

end Xlinux
