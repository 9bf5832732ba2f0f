/-
This file models how `kernel_execve` (`fs/exec.c`) puts the file name, the
environment and the arguments of a program on its new stack: the strings are
counted, `bprm_stack_limits` sets the lowest address they may reach, and
`copy_string_kernel` copies each of them below the one before it, page by page.
A page is looked up, and made, by `get_user_pages_remote` (`gup/gup.c`,
`pgalloc/pgalloc.c`).
-/

import Xlinux.Lib.Bytes
import Xlinux.Mmap.Areas

namespace Xlinux

/-! ### The state -/

/-- The pages of a user: which entries of the three levels of the page table are there, by the part
of the address they stand for, and the bytes. -/
structure UserPages where
  pgd : UInt64 → Bool
  pmd : UInt64 → Bool
  pte : UInt64 → Bool
  bytes : Bytes.Memory

/-- `struct linux_binprm`, with the areas and the pages of its `mm`. -/
structure LinuxBinprm where
  mm : MmStruct
  vma : UInt64
  pages : UserPages
  p : UInt64
  argmin : UInt64
  argc : Nat
  envc : Nat
  exec : UInt64
  rlimCur : UInt64

/-- What a page fault finds: whether there is memory for a middle directory, a page table and a
page, and what `find_vma` finds in a variable without a value. -/
structure FaultEnv where
  pmd : Bool
  pte : Bool
  page : Bool
  uninitialized : UInt64

/-- `E2BIG`. -/
def e2big : Int := 7

/-- `EFAULT`. -/
def efault : Int := 14

/-- `MAX_ARG_STRINGS`. -/
def maxArgStrings : Nat := 0x7fffffff

/-- `MAX_ARG_STRLEN`. -/
def maxArgStrlen : Nat := 131072

/-- `ARG_MAX`. -/
def argMax : UInt64 := 131072

/-- `_STK_LIM`. -/
def stkLim : UInt64 := 0x800000

/-- `PAGE_MASK`. -/
def pageMask : UInt64 := ~~~(pageSize - 1)

/-- `STACK_TOP_MAX`. -/
def stackTopMax : UInt64 := taskSize

/-- `VM_STACK_FLAGS | VM_STACK_INCOMPLETE_SETUP`. -/
def vmStackFlags : UInt64 := vmGrowsdown ||| vmDataDefaultFlags ||| vmAccount ||| 0x18000

/-- `__bprm_mm_init`, with what `vm_area_alloc` returns; the area and the first address. -/
def bprmMmInit (vma : UInt64) : MmM (UInt64 × UInt64) := do
  let vma ← vmAreaAlloc vma
  if vma = 0 then throw (.panic "bad mm for bprm!")
  modifyVma vma fun area => { area with
    vmOps := 0, vmEnd := stackTopMax, vmStart := stackTopMax - pageSize, vmFlags := vmStackFlags }
  let err ← insertVmStruct vma
  if err ≠ 0 then throw (.panic "can not insert vma!")
  return (vma, stackTopMax - 8)

/-- `alloc_bprm`, with what `mm_alloc` and `vm_area_alloc` return. -/
def allocBprm (mm : MmStruct) (pages : UserPages) (vma rlimCur : UInt64) : Kernel LinuxBinprm := do
  let ((vma, p), mm) ← bprmMmInit vma mm
  return ⟨mm, vma, pages, p, 0, 0, 0, 0, rlimCur⟩

/-! ### Pages -/

/-- `find_extend_vma`. -/
def findExtendVma (uninitialized : UInt64) (mm : MmStruct) (addr : UInt64) : Kernel UInt64 := do
  let addr := addr &&& pageMask
  let (vma, _) ← findVma mm.areas addr uninitialized ⟨mm.nodes, mm.mmRb⟩
  if vma = 0 then return 0
  if (mm.areas vma).vmStart ≤ addr then return vma
  throw (.panic "%s: (%lx <= %lx)!")

/-- `follow_page_mask`: whether the page is there. -/
def followPageMask (pages : UserPages) (address : UInt64) : Kernel Bool :=
  if !pages.pgd (address >>> 30) then .ok false
  else if !pages.pmd (address >>> 21) then .ok false
  else if !pages.pte (address >>> pageShift) then .error (.panic "pte NOT present!")
  else .ok true

/-- `pmd_alloc`: a new middle directory is empty. -/
def pmdAlloc (env : FaultEnv) (pages : UserPages) (address : UInt64) : Option UserPages :=
  if pages.pgd (address >>> 30) then some pages
  else if env.pmd then some { pages with
    pgd := Function.update pages.pgd (address >>> 30) true
    pmd := fun entry => if entry >>> 9 = address >>> 30 then false else pages.pmd entry }
  else none

/-- `pte_alloc`: a new page table is empty. -/
def pteAlloc (env : FaultEnv) (pages : UserPages) (address : UInt64) : Option UserPages :=
  if pages.pmd (address >>> 21) then some pages
  else if env.pte then some { pages with
    pmd := Function.update pages.pmd (address >>> 21) true
    pte := fun entry => if entry >>> 9 = address >>> 21 then false else pages.pte entry }
  else none

/-- `handle_mm_fault` for an anonymous area, and the check of its result in `faultin_page`. -/
def faultinPage (env : FaultEnv) (pages : UserPages) (address : UInt64) : Kernel UserPages :=
  match pmdAlloc env pages address with
  | none => .error (.panic "handle mm fault error!")
  | some pages =>
    if pages.pmd (address >>> 21) && pages.pte (address >>> pageShift) then .error (.panic "%s: !")
    else match pteAlloc env pages address with
      | none => .error (.panic "handle mm fault error!")
      | some pages =>
        if !env.page then .error (.panic "out of memory!")
        else if pages.pte (address >>> pageShift) then .error (.panic "bad pte!")
        else .ok { pages with
          pte := Function.update pages.pte (address >>> pageShift) true
          bytes := Bytes.fill 0 pageSize.toNat (address &&& pageMask) pages.bytes }

/-- The loop of `__get_user_pages` to the label `retry`. -/
def followOrFault (env : FaultEnv) : Nat → UserPages → UInt64 → Kernel UserPages
  | 0, _, _ => .error .endless
  | turns + 1, pages, address => do
    if ← followPageMask pages address then return pages
    followOrFault env turns (← faultinPage env pages address) address

/-- `get_arg_page`: `__get_user_pages` for a single page. When the pages it goes on by are none,
its loop does not end. -/
def getArgPage (env : FaultEnv) (bprm : LinuxBinprm) (pos : UInt64) : Kernel UserPages := do
  let vma ← findExtendVma env.uninitialized bprm.mm pos
  if vma = 0 then throw (.panic "find error!")
  let pages ← followOrFault env maxTurns bprm.pages pos
  let pageIncrem := (1 + ~~~(pos >>> pageShift)).toUInt32
  if pageIncrem = 0 then throw .endless
  return pages

/-! ### Strings -/

/-- The loop of `count_strings_kernel`. -/
def countStringsLoop : Nat → List CString → Int
  | i, [] => i
  | i, _ :: rest => if i ≥ maxArgStrings then -e2big else countStringsLoop (i + 1) rest

/-- `count_strings_kernel`. -/
def countStringsKernel : Option (List CString) → Int
  | none => 0
  | some argv => countStringsLoop 0 argv

/-- The size of the pointers: a sum of two `int`s times a `size_t`. -/
def ptrSize (argc envc : Nat) : UInt64 :=
  (UInt32.ofNat argc + UInt32.ofNat envc).toInt32.toInt64.toUInt64 * 8

/-- The limit of `bprm_stack_limits` for strings and pointers. -/
def stackLimit (rlimCur : UInt64) : UInt64 :=
  cmax (cmin (stkLim / 4 * 3) (rlimCur / 4)) argMax

/-- `bprm_stack_limits`. -/
def bprmStackLimits (bprm : LinuxBinprm) : Int × LinuxBinprm :=
  let limit := stackLimit bprm.rlimCur
  let size := ptrSize bprm.argc bprm.envc
  if limit ≤ size then (-e2big, bprm)
  else (0, { bprm with argmin := bprm.p - (limit - size) })

/-- `min_not_zero`. -/
def minNotZero (x y : UInt64) : UInt64 := if x = 0 then y else if y = 0 then x else cmin x y

/-- The loop of `copy_string_kernel`, where `arg` is the part of the string that is still to be
copied. -/
def copyStringLoop (env : FaultEnv) : Nat → LinuxBinprm → UInt64 → List UInt8 → Kernel LinuxBinprm
  | 0, _, _, _ => .error .endless
  | turns + 1, bprm, pos, arg =>
    if arg.length = 0 then .ok bprm
    else do
      let bytesToCopy := min arg.length (minNotZero (offsetInPage pos) pageSize).toNat
      let pos := pos - UInt64.ofNat bytesToCopy
      let pages ← getArgPage env bprm pos
      let left := arg.length - bytesToCopy
      let bprm := { bprm with pages := { pages with
        bytes := Bytes.store (arg.drop left) pos pages.bytes } }
      copyStringLoop env turns bprm pos (arg.take left)

/-- `copy_string_kernel`. -/
def copyStringKernel (env : FaultEnv) (arg : CString) (bprm : LinuxBinprm) :
    Kernel (Int × LinuxBinprm) := do
  let pos := bprm.p
  let len := min arg.bytes.length maxArgStrlen + 1
  if len > maxArgStrlen then return (-e2big, bprm)
  let bprm := { bprm with p := bprm.p - UInt64.ofNat len }
  if bprm.p < bprm.argmin then return (-e2big, bprm)
  return (0, ← copyStringLoop env maxTurns bprm pos arg.terminated)

/-- `copy_strings_kernel`, with the strings from the last one on. -/
def copyStringsKernel (env : FaultEnv) : List CString → LinuxBinprm → Kernel (Int × LinuxBinprm)
  | [], bprm => return (0, bprm)
  | arg :: rest, bprm => do
    let (ret, bprm) ← copyStringKernel env arg bprm
    if ret < 0 then return (ret, bprm)
    copyStringsKernel env rest bprm

/-- A call that may return an error, which is not passed on. -/
def orPanic {Result : Type} (message : String) (call : Kernel (Int × Result)) : Kernel Result := do
  let (ret, result) ← call
  if ret < 0 then throw (.panic message)
  return result

/-- `kernel_execve` up to the strings. An error would be returned; every one of them is a panic. -/
def kernelExecveStrings (env : FaultEnv) (filename : CString) (argv envp : Option (List CString))
    (bprm : LinuxBinprm) : Kernel (Except Int LinuxBinprm) := do
  let argc := countStringsKernel argv
  if argc < 0 then throw (.panic "out of memory!")
  let envc := countStringsKernel envp
  if envc < 0 then throw (.panic "out of memory!")
  let bprm ← orPanic "out of limits!" (.ok (bprmStackLimits { bprm with
    argc := argc.toNat, envc := envc.toNat }))
  let bprm ← orPanic "out of memory!" (copyStringKernel env filename bprm)
  let bprm := { bprm with exec := bprm.p }
  let bprm ← orPanic "out of memory!" (copyStringsKernel env (envp.getD []).reverse bprm)
  let bprm ← orPanic "out of memory!" (copyStringsKernel env (argv.getD []).reverse bprm)
  return .ok bprm

end Xlinux
