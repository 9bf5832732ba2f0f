/-
This file proves when `kernel_execve` gets the strings of a program onto its new
stack. The temporary stack is an area of one page that never grows: a string that
does not fit below the others in this page stops the kernel, and so does every
limit that is exceeded, since no error is passed on.
-/

import Xlinux.Exec.Strings
import Xlinux.Mmap.Find
import Xlinux.Mmap.Frame

namespace Xlinux

open Bytes RedBlack Cells Hoare List Kernel UInt64
open Function

variable {vma : UInt64}

/-! ### The area of the stack -/

/-- The first address of the temporary stack. -/
def stackBase : UInt64 := stackTopMax - pageSize

theorem toNat_stackBase : stackBase.toNat = 0x3ffffff000 := rfl

theorem toNat_stackTopMax : stackTopMax.toNat = 0x4000000000 := rfl

/-- The areas of a process in which `find_vma` finds the temporary stack. -/
structure StackMm (mm : MmStruct) (vma : UInt64) : Prop where
  ne : vma ≠ 0
  start : (mm.areas vma).vmStart = stackBase
  found : ∀ uninitialized addr, addr < stackTopMax →
    findVma mm.areas addr uninitialized ⟨mm.nodes, mm.mmRb⟩ = .ok (vma, ⟨mm.nodes, mm.mmRb⟩)

/-- An area for the page below the top is the first one above every address. -/
theorem Mapped.stackMm {mm : MmStruct} {tree : MaxTree} (mapped : Mapped mm tree 0)
    (only : ∀ one, one ∈ tree.labels ↔ one = vma) (start : (mm.areas vma).vmStart = stackBase)
    (stop : (mm.areas vma).vmEnd = stackTopMax) : StackMm mm vma where
  ne zero := mapped.zero_not_mem ((only 0).mpr zero.symm)
  start := start
  found uninitialized addr below := by
    have sorted : mm.areas.Sorted tree.labels :=
      ⟨mapped.ordered.sorted, fun one member =>
        UInt64.le_of_lt (mapped.ordered.nonempty one member)⟩
    have above : firstAbove mm.areas addr tree.labels = some vma := by
      cases found : firstAbove mm.areas addr tree.labels with
      | none =>
        have low := firstAbove_eq_none.mp found vma ((only vma).mpr rfl)
        rw [stop] at low
        exact absurd below low
      | some one =>
        rw [(only one).mp (sorted.lowestAbove found).member]
    rw [mapped.represents.findVma sorted, above]
    rfl

/-- The area of the temporary stack, before it is linked. -/
def newStack (vma : UInt64) : MmStruct := { emptyMm with
  areas := update emptyMm.areas vma ⟨stackBase, stackTopMax, 0, 0, vmStackFlags, 0, 0, 0⟩
  nodes := update emptyMm.nodes vma ⟨0, 0, 0, 0⟩ }

theorem newStack_areas :
    (newStack vma).areas vma = ⟨stackBase, stackTopMax, 0, 0, vmStackFlags, 0, 0, 0⟩ :=
  update_self ..

/-- `__bprm_mm_init` makes the temporary stack. -/
theorem ensures_bprmMmInit (usable : Usable vma) :
    Ensures (bprmMmInit vma) emptyMm fun result after =>
      result = (vma, stackTopMax - 8) ∧ StackMm after vma := by
  rw [bprmMmInit, vmAreaAlloc, if_pos usable.1, bind_assoc]
  refine ensures_modify ?_
  rw [pure_bind, if_neg usable.1]
  refine ensures_modify ?_
  dsimp only
  rw [VmAreas.write, update_self, update_idem]
  have mapped : Mapped (newStack vma) .leaf _ := mapped_emptyMm.fresh usable not_mem_nil _ _
  have inserted := mapped.insertVmStruct (by rw [newStack_areas]; decide)
    (by rw [newStack_areas]; exact ⟨⟨0x3ffffff, rfl⟩, ⟨0x4000000, rfl⟩⟩)
  refine (inserted.and ensures_insertVmStruct_contents).bind fun result after ran => ?_
  obtain ⟨⟨_, mappedAfter, labels⟩, range, -⟩ := ran
  rw [newStack_areas] at range
  by_cases linked : result = 0
  · rw [if_neg (not_not.mpr linked)]
    refine ensures_pure ⟨rfl, mappedAfter.stackMm (fun one => ?_) range.1 range.2⟩
    rw [labels, and_iff_right linked]
    exact or_iff_right not_mem_nil
  · rw [if_pos linked]
    exact ensures_throw

section Pages

variable {env : FaultEnv} {bprm : LinuxBinprm} {pages : UserPages} {pos : UInt64}

theorem toNat_and_pageMask (addr : UInt64) :
    (addr &&& pageMask).toNat = addr.toNat - addr.toNat % 4096 :=
  toNat_roundDown (show pageSize.toNat = 2 ^ 12 from rfl) addr

theorem StackMm.findExtendVma {mm : MmStruct} {vma : UInt64} (stack : StackMm mm vma)
    (below : pos.toNat < 0x4000000000) (uninitialized : UInt64) :
    Xlinux.findExtendVma uninitialized mm pos =
      if stackBase ≤ pos then .ok vma else .error (.panic "%s: (%lx <= %lx)!") := by
  have masked := toNat_and_pageMask pos
  have low : pos &&& pageMask < stackTopMax := by
    rw [lt_iff_toNat_lt, toNat_stackTopMax]
    omega
  have same : stackBase ≤ pos &&& pageMask ↔ stackBase ≤ pos := by
    rw [le_iff_toNat_le, le_iff_toNat_le, toNat_stackBase]
    omega
  rw [Xlinux.findExtendVma, stack.found _ _ low, ok_bind]
  dsimp only
  rw [if_neg stack.ne, stack.start]
  simp only [same]
  rfl

/-- The page of the stack is there. -/
def Present (pages : UserPages) : Prop :=
  pages.pgd 0xff = true ∧ pages.pmd 0x1ffff = true ∧ pages.pte 0x3ffffff = true

/-- There is memory for a first page. -/
def FaultEnv.Free (env : FaultEnv) : Prop := env.pmd = true ∧ env.pte = true ∧ env.page = true

section

variable (high : pos < stackTopMax)

include high

/-- The entries of the page table for an address on the stack. -/
theorem stack_entries (low : stackBase ≤ pos) :
    pos >>> 30 = 0xff ∧ pos >>> 21 = 0x1ffff ∧ pos >>> pageShift = 0x3ffffff := by
  rw [le_iff_toNat_le, toNat_stackBase] at low
  rw [lt_iff_toNat_lt, toNat_stackTopMax] at high
  simp only [← UInt64.toNat_inj, UInt64.toNat_shiftRight, Nat.shiftRight_eq_div_pow]
  show pos.toNat / 2 ^ 30 = 0xff ∧ pos.toNat / 2 ^ 21 = 0x1ffff ∧ pos.toNat / 2 ^ 12 = 0x3ffffff
  omega

theorem stack_page (low : stackBase ≤ pos) : pos &&& pageMask = stackBase := by
  rw [le_iff_toNat_le, toNat_stackBase] at low
  rw [lt_iff_toNat_lt, toNat_stackTopMax] at high
  refine UInt64.toNat_inj.mp ?_
  rw [toNat_and_pageMask, toNat_stackBase]
  omega

/-- The pages after the first fault on the stack. -/
def firstPage (pages : UserPages) : UserPages where
  pgd := update pages.pgd 0xff true
  pmd := update (fun entry => if entry >>> 9 = 0xff then false else pages.pmd entry) 0x1ffff true
  pte := update (fun entry => if entry >>> 9 = 0x1ffff then false else pages.pte entry)
    0x3ffffff true
  bytes := fill 0 pageSize.toNat stackBase pages.bytes

omit high in
theorem present_firstPage : Present (firstPage pages) := by
  unfold firstPage Present
  exact ⟨rfl, rfl, rfl⟩

theorem followPageMask_present (low : stackBase ≤ pos)
    (present : Present pages) : followPageMask pages pos = .ok true := by
  obtain ⟨pgd, pmd, pte⟩ := stack_entries high low
  rw [followPageMask, pgd, pmd, pte, present.1, present.2.1, present.2.2]
  rfl

section

variable (low : stackBase ≤ pos) (absent : pages.pgd 0xff = false)

include low absent

theorem followPageMask_absent : followPageMask pages pos = .ok false := by
  rw [followPageMask, (stack_entries high low).1, absent]
  rfl

theorem faultinPage_free (free : env.Free) : faultinPage env pages pos = .ok (firstPage pages) := by
  obtain ⟨pgd, pmd, pte⟩ := stack_entries high low
  obtain ⟨freePmd, freePte, freePage⟩ := free
  unfold faultinPage pmdAlloc pteAlloc
  rw [pgd, pmd, pte, absent, freePmd, freePte, freePage, stack_page high low]
  rfl

theorem faultinPage_full (full : ¬env.Free) :
    ∃ fault, faultinPage env pages pos = .error fault := by
  obtain ⟨pgd, pmd, pte⟩ := stack_entries high low
  unfold faultinPage pmdAlloc pteAlloc
  rw [pgd, pmd, absent]
  cases freePmd : env.pmd <;> cases freePte : env.pte <;> cases freePage : env.page
  case true.true.true => exact absurd ⟨freePmd, freePte, freePage⟩ full
  all_goals exact ⟨_, rfl⟩

end

/-- The pages that `get_arg_page` leaves. -/
def withPage (pages : UserPages) : UserPages := if pages.pgd 0xff then pages else firstPage pages

/-- Either the page of the stack is there or its directory is not. -/
def Paged (pages : UserPages) : Prop := Present pages ∨ pages.pgd 0xff = false

omit high in
theorem Paged.present_withPage (paged : Paged pages) : Present (withPage pages) := by
  unfold withPage
  rcases paged with present | absent
  · rw [if_pos present.1]
    exact present
  · rw [if_neg (by rw [absent]; exact Bool.false_ne_true)]
    exact present_firstPage

theorem getArgPage_stack (stack : StackMm bprm.mm bprm.vma) (low : stackBase ≤ pos)
    (paged : Paged bprm.pages) (memory : Present bprm.pages ∨ env.Free) :
    getArgPage env bprm pos = .ok (withPage bprm.pages) := by
  have more : ¬(1 + ~~~(pos >>> pageShift)).toUInt32 = 0 := by
    rw [(stack_entries high low).2.2]
    decide
  have followed : followOrFault env maxTurns bprm.pages pos = .ok (withPage bprm.pages) := by
    rw [maxTurns_eq, followOrFault, withPage]
    rcases paged with present | absent
    · rw [followPageMask_present high low present, ok_bind, if_pos present.1]
      rfl
    · have free : env.Free := memory.resolve_left fun present => by
        rw [present.1] at absent
        cases absent
      rw [followPageMask_absent high low absent, ok_bind, if_neg Bool.false_ne_true,
        faultinPage_free high low absent free, ok_bind, followOrFault,
        followPageMask_present high low present_firstPage, ok_bind, if_pos rfl,
        if_neg (by rw [absent]; exact Bool.false_ne_true)]
      rfl
  rw [getArgPage, stack.findExtendVma (lt_iff_toNat_lt.mp high), if_pos low, ok_bind,
    if_neg stack.ne, followed, ok_bind, if_neg more]
  rfl

theorem getArgPage_full (stack : StackMm bprm.mm bprm.vma) (low : stackBase ≤ pos)
    (absent : bprm.pages.pgd 0xff = false) (full : ¬env.Free) :
    ∃ fault, getArgPage env bprm pos = .error fault := by
  obtain ⟨fault, failed⟩ := faultinPage_full high low absent full
  refine ⟨fault, ?_⟩
  rw [getArgPage, stack.findExtendVma (lt_iff_toNat_lt.mp high), if_pos low, ok_bind,
    if_neg stack.ne, maxTurns_eq, followOrFault,
    followPageMask_absent high low absent, ok_bind, failed]
  rfl

end

/-- The area does not grow down to a page below it. -/
theorem getArgPage_below (env : FaultEnv) (stack : StackMm bprm.mm bprm.vma)
    (below : pos < stackBase) : ∃ fault, getArgPage env bprm pos = .error fault := by
  have less := lt_iff_toNat_lt.mp below
  rw [toNat_stackBase] at less
  rw [getArgPage, stack.findExtendVma (by omega), if_neg (UInt64.not_le.mpr below)]
  exact ⟨_, rfl⟩

end Pages

/-! ### Copying -/

/-- What is on the stack: some bytes, from the last string copied up to the word below the top. -/
structure OnStack (bprm : LinuxBinprm) (content : List UInt8) : Prop where
  stack : StackMm bprm.mm bprm.vma
  paged : Paged bprm.pages
  level : bprm.p.toNat + content.length = 0x3ffffffff8
  low : 0x3ffffff000 ≤ bprm.p.toNat
  spells : Spells bprm.pages.bytes bprm.p content
  touched : content = [] ∨ Present bprm.pages

section Copy

variable {env : FaultEnv} {bprm : LinuxBinprm} {content arg : List UInt8} {pos : UInt64}

theorem toNat_offsetInPage (pos : UInt64) : (offsetInPage pos).toNat = pos.toNat % 4096 :=
  toNat_pageOffset pos

theorem minNotZero_offset_of_ne (some : pos.toNat % 4096 ≠ 0) :
    (minNotZero (offsetInPage pos) pageSize).toNat = pos.toNat % 4096 := by
  have offset := toNat_offsetInPage pos
  have nonzero : offsetInPage pos ≠ 0 := by
    intro zero
    rw [zero] at offset
    exact some offset.symm
  rw [minNotZero, if_neg nonzero, if_neg (by decide), toNat_cmin, toNat_pageSize]
  omega

/-- The part of a string that fits into the page is copied in one turn. -/
theorem copyStringLoop_page (some : 0 < arg.length) (low : 0x3ffffff000 < pos.toNat)
    (high : pos.toNat < 0x4000000000) (env : FaultEnv) (turns : Nat) (bprm : LinuxBinprm) :
    ∃ bytesToCopy, bytesToCopy = min arg.length (pos.toNat - 0x3ffffff000) ∧
      (pos - UInt64.ofNat bytesToCopy).toNat = pos.toNat - bytesToCopy ∧
      copyStringLoop env (turns + 1) bprm pos arg = (do
        let pages ← getArgPage env bprm (pos - UInt64.ofNat bytesToCopy)
        copyStringLoop env turns { bprm with pages := { pages with
            bytes := store (arg.drop (arg.length - bytesToCopy)) (pos - UInt64.ofNat bytesToCopy)
              pages.bytes } } (pos - UInt64.ofNat bytesToCopy)
          (arg.take (arg.length - bytesToCopy))) := by
  have offset : pos.toNat % 4096 = pos.toNat - 0x3ffffff000 := by omega
  have least := minNotZero_offset_of_ne (show pos.toNat % 4096 ≠ 0 by omega)
  refine ⟨_, rfl, ?_, ?_⟩
  · exact toNat_sub_ofNat (by omega)
  · rw [copyStringLoop, if_neg (ne_of_gt some), least, offset]

/-- From the first address of the page on, every copy goes below the area. -/
theorem copyStringLoop_base (env : FaultEnv) (turns : Nat) (stack : StackMm bprm.mm bprm.vma)
    (base : pos.toNat = 0x3ffffff000) (some : 0 < arg.length) :
    ∃ fault, copyStringLoop env (turns + 1) bprm pos arg = .error fault := by
  have first : offsetInPage pos = 0 :=
    UInt64.toNat_inj.mp ((toNat_offsetInPage pos).trans (show pos.toNat % 4096 = 0 by omega))
  have below : pos - ofNat (min arg.length 4096) < stackBase := by
    rw [lt_iff_toNat_lt, toNat_sub_ofNat (by omega), toNat_stackBase]
    omega
  obtain ⟨fault, failed⟩ := getArgPage_below env stack below
  rw [copyStringLoop, if_neg (ne_of_gt some), minNotZero, if_pos first, toNat_pageSize]
  dsimp only
  rw [failed]
  exact ⟨fault, rfl⟩

/-- A string that fits is copied if there is a page for it; otherwise the kernel stops. -/
theorem copyStringLoop_cases (turns : Nat) (stack : StackMm bprm.mm bprm.vma)
    (paged : Paged bprm.pages)
    (some : 0 < arg.length) (low : 0x3ffffff000 ≤ pos.toNat) (high : pos.toNat < 0x4000000000) :
    (0x3ffffff000 + arg.length ≤ pos.toNat ∧ (Present bprm.pages ∨ env.Free)) ∧
      copyStringLoop env (turns + 2) bprm pos arg = .ok { bprm with pages :=
        { withPage bprm.pages with
        bytes := store arg (pos - UInt64.ofNat arg.length) (withPage bprm.pages).bytes } } ∨
    ¬(0x3ffffff000 + arg.length ≤ pos.toNat ∧ (Present bprm.pages ∨ env.Free)) ∧
      ∃ fault, copyStringLoop env (turns + 2) bprm pos arg = .error fault := by
  by_cases base : pos.toNat = 0x3ffffff000
  · exact .inr ⟨by omega, copyStringLoop_base env (turns + 1) stack base some⟩
  obtain ⟨bytesToCopy, _, _, ran⟩ :=
    copyStringLoop_page some (by omega) high env (turns + 1) bprm
  have inside : stackBase ≤ pos - ofNat bytesToCopy := by
    rw [le_iff_toNat_le, toNat_stackBase]
    omega
  have below : pos - ofNat bytesToCopy < stackTopMax := by
    rw [lt_iff_toNat_lt, toNat_stackTopMax]
    omega
  rw [ran]
  by_cases memory : Present bprm.pages ∨ env.Free
  · rw [getArgPage_stack below stack inside paged memory, ok_bind]
    by_cases fits : 0x3ffffff000 + arg.length ≤ pos.toNat
    · obtain rfl : bytesToCopy = arg.length := by omega
      rw [Nat.sub_self, take_zero, copyStringLoop]
      exact .inl ⟨⟨fits, memory⟩, rfl⟩
    · refine .inr ⟨fun both => fits both.1, copyStringLoop_base env turns stack ?_ ?_⟩
      · omega
      · rw [length_take]
        omega
  · have absent := paged.resolve_left fun present => memory (.inl present)
    obtain ⟨fault, failed⟩ := getArgPage_full below stack inside absent fun free =>
      memory (.inr free)
    rw [failed]
    exact .inr ⟨fun both => memory both.2, fault, rfl⟩

/-- A string on the stack. -/
def pushed (bprm : LinuxBinprm) (arg : List UInt8) : LinuxBinprm := { bprm with
  p := bprm.p - UInt64.ofNat arg.length
  pages := { withPage bprm.pages with
    bytes := store arg (bprm.p - UInt64.ofNat arg.length) (withPage bprm.pages).bytes } }

namespace OnStack

variable (stacked : OnStack bprm content)

include stacked

theorem length_le : content.length ≤ 4088 := by
  have level := stacked.level
  have low := stacked.low
  omega

theorem toNat_sub (fits : arg.length + content.length ≤ 4088) :
    (bprm.p - UInt64.ofNat arg.length).toNat = bprm.p.toNat - arg.length := by
  have level := stacked.level
  exact toNat_sub_ofNat (by omega)

/-- A string is stacked below the others. -/
theorem push (fits : arg.length + content.length ≤ 4088) :
    OnStack (pushed bprm arg) (arg ++ content) := by
  have level := stacked.level
  have value := stacked.toNat_sub fits
  have present : Present (pushed bprm arg).pages := stacked.paged.present_withPage
  -- The page is new only if nothing was stacked.
  have kept : Spells (withPage bprm.pages).bytes bprm.p content := by
    rcases stacked.touched with empty | touched
    · rw [empty]
      trivial
    · rw [withPage, if_pos touched.1]
      exact stacked.spells
  refine ⟨stacked.stack, .inl present, ?_, ?_, ?_, .inr present⟩
  · rw [pushed, value, length_append]
    omega
  · rw [pushed, value]
    omega
  · rw [spells_append, pushed, sub_add_cancel]
    refine ⟨spells_store (by omega), kept.congr (by omega) fun addr inside => ?_⟩
    refine store_outside (by omega) fun within => ?_
    have above := inside.1
    have below := within.2
    omega

end OnStack

end Copy

/-! ### Strings -/

section Strings

variable {env : FaultEnv} {bprm final : LinuxBinprm} {content : List UInt8} {arg : CString}
  {args : List CString} {ret : Int}

theorem CString.length_terminated (arg : CString) :
    arg.terminated.length = arg.bytes.length + 1 := by
  rw [CString.terminated, length_append, length_singleton]

section

variable (stacked : OnStack bprm content)

include stacked

/-- The loop of `copy_string_kernel`. -/
theorem OnStack.copyStringLoop (arg : CString) :
    let loop := Xlinux.copyStringLoop env maxTurns
      { bprm with p := bprm.p - UInt64.ofNat arg.terminated.length } bprm.p arg.terminated
    (arg.terminated.length + content.length ≤ 4088 ∧ (Present bprm.pages ∨ env.Free)) ∧
      loop = .ok (pushed bprm arg.terminated) ∨
    ¬(arg.terminated.length + content.length ≤ 4088 ∧ (Present bprm.pages ∨ env.Free)) ∧
      ∃ fault, loop = .error fault := by
  have level := stacked.level
  have length := arg.length_terminated
  have same : arg.terminated.length + content.length ≤ 4088 ↔
      0x3ffffff000 + arg.terminated.length ≤ bprm.p.toNat := by omega
  have cases := @copyStringLoop_cases env { bprm with p := bprm.p - ofNat arg.terminated.length }
    arg.terminated bprm.p 18446744073709551614 stacked.stack stacked.paged (by omega) stacked.low
    (by omega)
  rw [← same] at cases
  exact cases

/-- A string that fits is copied. -/
theorem copyStringKernel_fits (memory : Present bprm.pages ∨ env.Free)
    (fits : arg.terminated.length + content.length ≤ 4088) (limit : bprm.argmin ≤ stackBase) :
    copyStringKernel env arg bprm = .ok (0, pushed bprm arg.terminated) := by
  have level := stacked.level
  have value := stacked.toNat_sub fits
  have length := arg.length_terminated
  have above : ¬bprm.p - ofNat arg.terminated.length < bprm.argmin := by
    rw [lt_iff_toNat_lt]
    rw [le_iff_toNat_le, toNat_stackBase] at limit
    omega
  have whole : min arg.bytes.length maxArgStrlen + 1 = arg.terminated.length := by
    rw [maxArgStrlen]
    omega
  rw [copyStringKernel]
  have loop := (stacked.copyStringLoop arg).resolve_right fun fails => fails.1 ⟨fits, memory⟩
  rw [whole, if_neg (by rw [maxArgStrlen]; omega), if_neg above, loop.2]
  rfl

/-- Only a string that fits is copied. -/
theorem copyStringKernel_ok
    (ran : copyStringKernel env arg bprm = .ok (ret, final)) (copied : ¬ret < 0) :
    final = pushed bprm arg.terminated ∧ (Present bprm.pages ∨ env.Free) ∧
      arg.terminated.length + content.length ≤ 4088 := by
  have length := arg.length_terminated
  have tooBig : -e2big < 0 := by decide
  rw [copyStringKernel] at ran
  dsimp only at ran
  split at ran
  · cases ran
    exact absurd tooBig copied
  have whole : min arg.bytes.length maxArgStrlen + 1 = arg.terminated.length := by
    omega
  rw [whole] at ran
  split at ran
  · cases ran
    exact absurd tooBig copied
  rcases @OnStack.copyStringLoop env _ _ stacked arg with ⟨⟨fits, memory⟩, loop⟩ | ⟨-, _, failed⟩
  · rw [loop] at ran
    cases ran
    exact ⟨rfl, memory, fits⟩
  · rw [failed] at ran
    cases ran

/-- Strings one after the other. -/
def joined (args : List CString) : List UInt8 := (args.map CString.terminated).flatten

omit stacked in
theorem joined_reverse_cons :
    joined (arg :: args).reverse = joined args.reverse ++ arg.terminated := by
  simp [joined]

omit stacked in
theorem length_le_joined : args.length ≤ (joined args).length := by
  induction args with
  | nil => exact Nat.zero_le _
  | cons arg args ih =>
    have first := arg.length_terminated
    rw [joined, map_cons, flatten_cons, length_append, ← joined, length_cons]
    omega

/-- Strings that fit are copied, and nothing but the stack changes. -/
theorem copyStringsKernel_fits (present : Present bprm.pages)
    (fits : (joined args.reverse).length + content.length ≤ 4088)
    (limit : bprm.argmin ≤ stackBase) :
    ∃ final, copyStringsKernel env args bprm = .ok (0, final) ∧
      OnStack final (joined args.reverse ++ content) ∧
      final = { bprm with p := final.p, pages := final.pages } := by
  induction args generalizing bprm content with
  | nil => exact ⟨bprm, rfl, stacked, rfl⟩
  | cons arg args ih =>
    rw [joined_reverse_cons, length_append] at fits
    have one : arg.terminated.length + content.length ≤ 4088 := by omega
    obtain ⟨final, ran, stackedAfter, only⟩ := ih (stacked.push one)
      stacked.paged.present_withPage (by rw [length_append]; omega) limit
    refine ⟨final, ?_, ?_, only⟩
    · rw [copyStringsKernel, copyStringKernel_fits stacked (.inl present) one limit]
      exact ran
    · rw [joined_reverse_cons, append_assoc]
      exact stackedAfter

/-- Only strings that fit are copied. -/
theorem copyStringsKernel_ok (ran : copyStringsKernel env args bprm = .ok (ret, final))
    (copied : ¬ret < 0) : OnStack final (joined args.reverse ++ content) := by
  induction args generalizing bprm content with
  | nil =>
    cases ran
    exact stacked
  | cons arg args ih =>
    rw [copyStringsKernel] at ran
    obtain ⟨⟨_, _⟩, firstRan, rest⟩ := bind_ok.mp ran
    dsimp only at rest
    split at rest
    · cases rest
      exact absurd ‹_› copied
    · rename_i more
      obtain ⟨rfl, -, fits⟩ := copyStringKernel_ok stacked firstRan more
      rw [joined_reverse_cons, append_assoc]
      exact ih (stacked.push fits) rest

end

theorem countStringsLoop_of_le {i : Nat} (few : i + args.length ≤ maxArgStrings) :
    countStringsLoop i args = (i + args.length : Nat) := by
  induction args generalizing i with
  | nil => rfl
  | cons arg args ih =>
    rw [length_cons] at few
    rw [countStringsLoop, if_neg (by omega), ih (by omega), length_cons]
    omega

theorem countStringsKernel_of_le {argv : Option (List CString)}
    (few : (argv.getD []).length ≤ maxArgStrings) :
    countStringsKernel argv = ((argv.getD []).length : Nat) := by
  cases argv with
  | none => rfl
  | some args =>
    rw [Option.getD_some] at few ⊢
    rw [countStringsKernel, countStringsLoop_of_le (by omega), zero_add]

theorem toNat_ptrSize {argc envc : Nat} (small : argc + envc < 2 ^ 31) :
    (ptrSize argc envc).toNat = 8 * (argc + envc) := by
  have positive : (BitVec.ofNat 32 (argc + envc)).msb = false := by
    rw [BitVec.msb_eq_false_iff_two_mul_lt, BitVec.toNat_ofNat]
    omega
  have count : (UInt32.ofNat argc + UInt32.ofNat envc).toInt32.toInt64.toUInt64 =
      ofNat (argc + envc) := by
    rw [← UInt32.ofNat_add]
    refine UInt64.toBitVec_inj.mp ?_
    show BitVec.signExtend 64 (BitVec.ofNat 32 (argc + envc)) = BitVec.ofNat 64 (argc + envc)
    rw [BitVec.signExtend_eq_setWidth_of_msb_false positive]
    refine BitVec.eq_of_toNat_eq ?_
    rw [BitVec.toNat_setWidth, BitVec.toNat_ofNat, BitVec.toNat_ofNat]
    omega
  rw [ptrSize, count, UInt64.toNat_mul]
  show (argc + envc) % 2 ^ 64 * 8 % 2 ^ 64 = _
  omega

theorem toNat_stackLimit (rlimCur : UInt64) :
    (stackLimit rlimCur).toNat = max (min 0x600000 (rlimCur.toNat / 4)) 131072 := by
  rw [stackLimit, toNat_cmax, toNat_cmin]
  rfl

/-- The limits leave room for the page of the stack if there are few strings. -/
theorem bprmStackLimits_few (level : bprm.p.toNat = 0x3ffffffff8)
    (few : bprm.argc + bprm.envc ≤ 4088) :
    ∃ argmin, bprmStackLimits bprm = (0, { bprm with argmin }) ∧ argmin ≤ stackBase := by
  have limit := toNat_stackLimit bprm.rlimCur
  have size := toNat_ptrSize (show bprm.argc + bprm.envc < 2 ^ 31 by omega)
  have room : ¬stackLimit bprm.rlimCur ≤ ptrSize bprm.argc bprm.envc := by
    rw [le_iff_toNat_le]
    omega
  refine ⟨_, if_neg room, ?_⟩
  have inner := UInt64.toNat_sub_of_le _ _ (UInt64.le_of_lt (UInt64.not_le.mp room))
  rw [le_iff_toNat_le, UInt64.toNat_sub_of_le _ _ (le_iff_toNat_le.mpr (by omega)),
    toNat_stackBase]
  omega

theorem orPanic_ok {Result : Type} {message : String} {call : Kernel (Int × Result)}
    {result : Result} :
    orPanic message call = .ok result ↔ ∃ ret, call = .ok (ret, result) ∧ ¬ret < 0 := by
  rw [orPanic, bind_ok]
  constructor
  · rintro ⟨⟨ret, _⟩, ran, rest⟩
    dsimp only at rest
    split at rest
    · cases rest
    · cases rest
      exact ⟨ret, ran, ‹_›⟩
  · rintro ⟨ret, ran, success⟩
    refine ⟨(ret, result), ran, ?_⟩
    dsimp only
    rw [if_neg success]
    rfl

end Strings

/-! ### The whole copy -/

/-- The strings from the lowest address on. -/
def stackContent (filename : CString) (argv envp : List CString) : List UInt8 :=
  joined argv ++ (joined envp ++ filename.terminated)

section Execve

variable {env : FaultEnv} {bprm : LinuxBinprm} {filename : CString}
    {argv envp : Option (List CString)}
  {content : List UInt8} {result : Except Int LinuxBinprm}

/-- The other fields say nothing about the stack. -/
theorem OnStack.relabel (stacked : OnStack bprm content) (argmin exec : UInt64) (argc envc : Nat) :
    OnStack { bprm with argmin, exec, argc, envc } content :=
  ⟨stacked.stack, stacked.paged, stacked.level, stacked.low, stacked.spells, stacked.touched⟩

/-- Only strings that fit are copied, and only if there is memory. -/
theorem kernelExecveStrings_ok (stacked : OnStack bprm []) (absent : bprm.pages.pgd 0xff = false)
    (ran : kernelExecveStrings env filename argv envp bprm = .ok result) :
    ∃ final, result = .ok final ∧ env.Free ∧
      OnStack final (stackContent filename (argv.getD []) (envp.getD [])) := by
  rw [kernelExecveStrings] at ran
  dsimp only at ran
  split at ran
  · cases ran
  split at ran
  · cases ran
  obtain ⟨limited, limits, ran⟩ := bind_ok.mp ran
  obtain ⟨_, name, ran⟩ := bind_ok.mp ran
  obtain ⟨_, envpRan, ran⟩ := bind_ok.mp ran
  obtain ⟨final, argvRan, ran⟩ := bind_ok.mp ran
  cases ran
  obtain ⟨_, limits, -⟩ := orPanic_ok.mp limits
  obtain ⟨_, name, nameCopied⟩ := orPanic_ok.mp name
  obtain ⟨_, envpRan, envpCopied⟩ := orPanic_ok.mp envpRan
  obtain ⟨_, argvRan, argvCopied⟩ := orPanic_ok.mp argvRan
  have sameStack : OnStack limited [] ∧ limited.pages = bprm.pages := by
    rw [bprmStackLimits] at limits
    split at limits <;>
    · cases limits
      exact ⟨stacked.relabel _ _ _ _, rfl⟩
  obtain ⟨rfl, memory, fits⟩ := copyStringKernel_ok sameStack.1 name nameCopied
  rw [sameStack.2] at memory
  have stackedName := (sameStack.1.push fits).relabel limited.argmin
    (pushed limited filename.terminated).p limited.argc limited.envc
  have stackedEnvp := copyStringsKernel_ok stackedName envpRan envpCopied
  have stackedArgv := copyStringsKernel_ok stackedEnvp argvRan argvCopied
  rw [reverse_reverse, reverse_reverse, append_nil] at stackedArgv
  refine ⟨final, rfl, memory.resolve_left fun present => ?_, stackedArgv⟩
  rw [present.1] at absent
  cases absent

/-- Strings that fit are copied if there is memory. -/
theorem kernelExecveStrings_fits (stacked : OnStack bprm []) (free : env.Free)
    (fits : (stackContent filename (argv.getD []) (envp.getD [])).length ≤ 4088) :
    ∃ final, kernelExecveStrings env filename argv envp bprm = .ok (.ok final) ∧
      OnStack final (stackContent filename (argv.getD []) (envp.getD [])) ∧
      final.argc = (argv.getD []).length ∧ final.envc = (envp.getD []).length ∧
      final.exec.toNat + filename.terminated.length = 0x3ffffffff8 := by
  rw [stackContent, length_append, length_append] at fits
  have argc : (argv.getD []).length ≤ _ := length_le_joined
  have envc : (envp.getD []).length ≤ _ := length_le_joined
  have level : bprm.p.toNat = 0x3ffffffff8 := stacked.level
  have few : (argv.getD []).length + (envp.getD []).length ≤ 4088 := by omega
  let counted : LinuxBinprm := { bprm with
    argc := (argv.getD []).length, envc := (envp.getD []).length }
  obtain ⟨argmin, limits, low⟩ : ∃ argmin, bprmStackLimits counted = (0, { counted with argmin }) ∧
    argmin ≤ stackBase := bprmStackLimits_few level few
  have start : OnStack { counted with argmin } [] := stacked.relabel ..
  have one : filename.terminated.length + 0 ≤ 4088 := by omega
  have name := copyStringKernel_fits start (.inr free) one low
  let named := pushed { counted with argmin } filename.terminated
  have namedStack : OnStack { named with exec := named.p } filename.terminated := by
    have pushedName := (start.push one).relabel argmin named.p counted.argc counted.envc
    rwa [append_nil] at pushedName
  obtain ⟨withEnvp, envpRan, envpStack, envpOnly⟩ :
      ∃ final, copyStringsKernel env (envp.getD []).reverse
      { named with exec := named.p } = .ok (0, final) ∧ _ := copyStringsKernel_fits namedStack
    start.paged.present_withPage (by rw [reverse_reverse]; omega) low
  have envpLimit : withEnvp.argmin ≤ stackBase := by
    rw [envpOnly]
    exact low
  have envpPresent : Present withEnvp.pages := envpStack.touched.resolve_left fun none => by
    have length := congrArg length none
    rw [length_append, filename.length_terminated] at length
    cases length
  rw [reverse_reverse] at envpStack
  obtain ⟨final, argvRan, argvStack, argvOnly⟩ :
      ∃ final, copyStringsKernel env (argv.getD []).reverse
      withEnvp = .ok (0, final) ∧ _ := copyStringsKernel_fits envpStack envpPresent
    (by rw [reverse_reverse, length_append]; omega) envpLimit
  rw [reverse_reverse] at argvStack
  refine ⟨final, ?_, argvStack, ?_, ?_, ?_⟩
  · rw [kernelExecveStrings, countStringsKernel_of_le (by rw [maxArgStrings]; omega),
      countStringsKernel_of_le (by rw [maxArgStrings]; omega)]
    dsimp only
    rw [Int.toNat_natCast, Int.toNat_natCast, limits]
    rw [orPanic_ok.mpr ⟨0, rfl, by decide⟩, ok_bind, orPanic_ok.mpr ⟨0, name, by decide⟩, ok_bind]
    rw [orPanic_ok.mpr ⟨0, envpRan, by decide⟩, ok_bind, orPanic_ok.mpr ⟨0, argvRan, by decide⟩]
    rfl
  · exact (congrArg LinuxBinprm.argc argvOnly).trans (congrArg LinuxBinprm.argc envpOnly)
  · exact (congrArg LinuxBinprm.envc argvOnly).trans (congrArg LinuxBinprm.envc envpOnly)
  · have exec : final.exec = bprm.p - ofNat filename.terminated.length :=
      (congrArg LinuxBinprm.exec argvOnly).trans (congrArg LinuxBinprm.exec envpOnly)
    have value : (bprm.p - ofNat filename.terminated.length).toNat = _ := start.toNat_sub one
    rw [exec, value]
    show bprm.p.toNat - _ + _ = _
    omega

/-- The strings and the pointers are within the limits: those of `count_strings_kernel` and
`copy_string_kernel`, and the one that `bprm_stack_limits` computes. -/
structure WithinLimits (rlimCur : UInt64) (filename : CString)
    (argv envp : List CString) : Prop where
  argc : argv.length ≤ maxArgStrings
  envc : envp.length ≤ maxArgStrings
  strings : ∀ string ∈ filename :: (argv ++ envp), string.terminated.length ≤ maxArgStrlen
  pointers : 8 * (argv.length + envp.length) < (stackLimit rlimCur).toNat
  room : (stackContent filename argv envp).length + 8 * (argv.length + envp.length) ≤
    (stackLimit rlimCur).toNat

/-- What fits into one page is within the limits. -/
theorem withinLimits_of_fits {filename : CString} {argv envp : List CString} (rlimCur : UInt64)
    (fits : (stackContent filename argv envp).length ≤ 4088) :
    WithinLimits rlimCur filename argv envp := by
  have limit := toNat_stackLimit rlimCur
  have argc : argv.length ≤ _ := length_le_joined
  have envc : envp.length ≤ _ := length_le_joined
  have whole := fits
  rw [stackContent, length_append, length_append] at whole
  refine ⟨by rw [maxArgStrings]; omega, by rw [maxArgStrings]; omega, ?_, by omega, by omega⟩
  intro string member
  rw [maxArgStrlen]
  rcases mem_cons.mp member with rfl | inLists
  · omega
  · rcases mem_append.mp inLists with inOne | inOne <;>
    · have short : string.terminated.length ≤ (joined _).length :=
        (sublist_flatten_of_mem (mem_map_of_mem inOne)).length_le
      omega

/-- The strings are copied to the stack if they are within the limits, and the result is `-E2BIG`
otherwise. -/
structure CopiesOrFails (rlimCur : UInt64) (filename : CString) (argv envp : List CString)
    (result : Kernel (Except Int LinuxBinprm)) : Prop where
  copies : WithinLimits rlimCur filename argv envp → ∃ final, result = .ok (.ok final) ∧
    Spells final.pages.bytes final.p (stackContent filename argv envp) ∧
    final.p.toNat + (stackContent filename argv envp).length = (stackTopMax - 8).toNat
  fails : ¬WithinLimits rlimCur filename argv envp → result = .ok (.error (-e2big))

/-- A new `bprm` has an empty stack. -/
theorem onStack_allocBprm {pages : UserPages} {vma rlimCur : UInt64} (usable : Usable vma)
    (absent : pages.pgd 0xff = false) (made : allocBprm emptyMm pages vma rlimCur = .ok bprm) :
    OnStack bprm [] ∧ bprm.pages = pages := by
  rw [allocBprm] at made
  obtain ⟨⟨⟨_, _⟩, _⟩, init, made⟩ := bind_ok.mp made
  cases made
  obtain ⟨same, stack⟩ := ensures_bprmMmInit usable _ _ init
  cases same
  have low : 0x3ffffff000 ≤ (stackTopMax - 8).toNat := by decide
  exact ⟨⟨stack, .inr absent, rfl, low, trivial, .inl rfl⟩, rfl⟩

end Execve

/-- `kernel_execve` copies the strings that are within the limits and fails with `-E2BIG` otherwise,
without a panic, exactly if the strings fit into the one page of the temporary stack and there is
memory for it. -/
theorem kernelExecveStrings_copiesOrFails_iff (env : FaultEnv) (filename : CString)
    (argv envp : Option (List CString)) (pages : UserPages) (vma rlimCur : UInt64)
    (bprm : LinuxBinprm)
    (usable : Usable vma) (absent : pages.pgd 0xff = false)
    (made : allocBprm emptyMm pages vma rlimCur = .ok bprm) :
    CopiesOrFails rlimCur filename (argv.getD []) (envp.getD [])
        (kernelExecveStrings env filename argv envp bprm) ↔
      (stackContent filename (argv.getD []) (envp.getD [])).length ≤ 4088 ∧ env.Free := by
  obtain ⟨stacked, rfl⟩ := onStack_allocBprm usable absent made
  constructor
  · rintro ⟨copies, fails⟩
    by_cases within : WithinLimits rlimCur filename (argv.getD []) (envp.getD [])
    · obtain ⟨final, ran, -⟩ := copies within
      obtain ⟨other, -, free, after⟩ := kernelExecveStrings_ok stacked absent ran
      exact ⟨after.length_le, free⟩
    · obtain ⟨other, same, -⟩ := kernelExecveStrings_ok stacked absent (fails within)
      cases same
  · rintro ⟨fits, free⟩
    have within := withinLimits_of_fits rlimCur fits
    refine ⟨fun _ => ?_, absurd within⟩
    obtain ⟨final, ran, after, -⟩ := kernelExecveStrings_fits stacked free fits
    exact ⟨final, ran, after.spells, after.level⟩

/-- No page is there. -/
def noPages : UserPages where
  pgd _ := false
  pmd _ := false
  pte _ := false
  bytes _ := 0

def freeMemory : FaultEnv := ⟨true, true, true, 0⟩

/-- A string of some bytes. -/
def repeated (count : Nat) : CString where
  bytes := List.replicate count 97
  nonzero byte member := by
    rw [eq_of_mem_replicate member]
    decide

theorem kernelExecveStrings_copiesOrFails_iff_init : ∃ bprm,
    allocBprm emptyMm noPages 64 0x800000 = .ok bprm ∧
    CopiesOrFails 0x800000 (repeated 5) [repeated 5] []
      (kernelExecveStrings freeMemory (repeated 5) (some [repeated 5]) none bprm) := by
  have made : (allocBprm emptyMm noPages 64 0x800000).map (fun _ => ()) =
      .ok () := by decide +kernel
  obtain ⟨bprm, ran, -⟩ := exists_ok_of_map made
  refine ⟨bprm, ran, ?_⟩
  exact (kernelExecveStrings_copiesOrFails_iff freeMemory (repeated 5)
    (some [repeated 5]) none noPages
    64 0x800000 bprm (by decide) rfl ran).mpr ⟨by decide, rfl, rfl, rfl⟩

/-- An argument of 5000 bytes is within the limits and stops the kernel. -/
theorem kernelExecveStrings_long :
    WithinLimits 0x800000 (repeated 5) [repeated 5000] [] ∧
      (allocBprm emptyMm noPages 64 0x800000 >>= fun bprm =>
        kernelExecveStrings freeMemory (repeated 5) (some [repeated 5000]) none bprm).map
          (fun _ => ()) =
      .error (.panic "%s: (%lx <= %lx)!") := by
  refine ⟨⟨by decide, by decide, ?_, by decide, by decide +kernel⟩, by decide +kernel⟩
  intro string member
  rcases mem_cons.mp member with rfl | inLists
  · decide
  · rw [mem_singleton.mp inLists]
    decide +kernel

end Xlinux
