/-
This file is about `brk`, which moves the end of the heap of a process. The heap
grows by a new area, if there is room for it below the next one. It cannot shrink:
an end of the heap in a lower page stops the kernel.
-/

import Xlinux.Mmap.Calls
import Xlinux.Mmap.Find

namespace Xlinux

open RedBlack Cells Hoare Links UInt64
open Function (update update_self update_of_ne)

/-! ### The code -/

/-- The areas of a process, with the other fields of `struct mm_struct` that `brk` uses. -/
structure BrkMm extends MmStruct where
  brk : UInt64
  startBrk : UInt64
  startData : UInt64
  endData : UInt64

/-- `VM_LOCKED`. -/
def vmLocked : UInt64 := 0x2000

/-- `check_data_rlimit` with a limit, which may be `RLIM_INFINITY`. -/
def checkDataRlimit (rlim new start endData startData : UInt64) : Int :=
  if rlim < ~~~0 ∧ (new - start) + (endData - startData) > rlim then -28 else 0

/-- A call of `brk`, with the memory for a new area and what a variable of `find_vma` holds. -/
structure BrkCall where
  brk : UInt64
  vma : UInt64
  uninitialized : UInt64

/-- `_do_sys_brk`. -/
def doSysBrk (rlim : UInt64) (call : BrkCall) (mm : BrkMm) : Kernel (UInt64 × BrkMm) := do
  if call.brk < mm.endData then return (mm.brk, mm)
  if checkDataRlimit rlim call.brk mm.startBrk mm.endData mm.startData ≠ 0 then return (mm.brk, mm)
  let newbrk := pageAlign call.brk
  let oldbrk := pageAlign mm.brk
  if oldbrk = newbrk then return (call.brk, { mm with brk := call.brk })
  if call.brk ≤ mm.brk then throw (.panic "brk <= mm->brk")
  let (next, _) ← findVma mm.areas oldbrk call.uninitialized ⟨mm.nodes, mm.mmRb⟩
  if next ≠ 0 ∧ newbrk + pageSize > vmStartGap (mm.areas next) then return (mm.brk, mm)
  let (error, after) ← doBrkFlags oldbrk (newbrk - oldbrk) 0 call.vma mm.toMmStruct
  if error < 0 then return (mm.brk, { mm with toMmStruct := after })
  if newbrk > oldbrk ∧ after.defFlags &&& vmLocked ≠ 0 then throw (.panic "%s: !")
  return (call.brk, { mm with toMmStruct := after, brk := call.brk })

/-- One call after the other, with what the last one returned. -/
def brkCall (rlim : UInt64) (state : UInt64 × BrkMm) (call : BrkCall) : Kernel (UInt64 × BrkMm) :=
  doSysBrk rlim call state.2

/-! ### A new area for the heap -/

section Grow

variable {mm : MmStruct} {tree : MaxTree} {vma addr len : UInt64}

theorem getUnmappedArea_fixed (small : len ≤ taskSize) (low : addr ≤ taskSize - len)
    (aligned : PageAligned addr) :
    getUnmappedArea addr len mapFixed = .ok addr ∧ isErrValue addr = false := by
  have inPage : offsetInPage addr = 0 := by
    have low := toNat_pageOffset addr
    exact UInt64.toNat_inj.mp (low.trans (Nat.mod_eq_zero_of_dvd aligned))
  have bound : addr ≤ taskSize := UInt64.le_trans low (UInt64.sub_le small)
  have fine : isErrValue addr = false :=
    decide_eq_false (UInt64.not_le.mpr (UInt64.lt_of_le_of_lt bound (by decide)))
  refine ⟨?_, fine⟩
  rw [getUnmappedArea, if_neg (UInt64.not_lt.mpr small)]
  show (if isErrValue addr then _ else _ : Kernel UInt64) = _
  rw [fine, if_neg (UInt64.not_lt.mpr low), if_neg (not_not.mpr inPage)]
  rfl

/-- `do_brk_flags` links an area for a range that is free. -/
theorem Mapped.growBrk (mapped : Mapped mm tree 0) (usable : Usable vma) (fresh : vma ∉ tree.labels)
    (aligned : PageAligned addr ∧ PageAligned len) (positive : 0 < len) (small : len ≤ taskSize)
    (low : addr ≤ taskSize - len) (free : ∀ one ∈ tree.labels, addr < (mm.areas one).vmEnd →
      addr + len ≤ (mm.areas one).vmStart) :
    Hoare.Returns (Xlinux.doBrkFlags addr len 0 vma) mm fun result after => result = 0 ∧
      after.defFlags = mm.defFlags ∧
      rangeOf after.areas = update (rangeOf mm.areas) vma ⟨addr, addr + len⟩ ∧
      ∃ next : MaxTree, Mapped after next 0 ∧
        ∀ one, one ∈ next.labels ↔ one ∈ tree.labels ∨ one = vma := by
  obtain ⟨address, fine⟩ := getUnmappedArea_fixed small low aligned.1
  have wide := lt_add_of_le_taskSize positive small low
  refine returns_get ?_
  generalize 0 ||| vmDataDefaultFlags ||| vmAccount ||| mm.defFlags = flags
  rw [address]
  show Hoare.Returns (if isErrValue addr then _ else _) mm _
  rw [fine]
  refine mapped.represents.findVmaLinks.bind fun result same found => ?_
  obtain ⟨rfl, overlaps, found⟩ := found
  cases result with
  | none =>
    obtain ⟨one, member, above, below⟩ := overlaps rfl
    exact absurd (free one member above) (UInt64.not_le.mpr below)
  | some links =>
    obtain ⟨_, rfl, rfl, apart⟩ := found links rfl
    have alloc : Xlinux.vmAreaAlloc vma same = .ok (vma, { same with
        areas := update same.areas vma ⟨0, 0, 0, 0, 0, 0, 0, dummyVmOps⟩
        nodes := update same.nodes vma ⟨0, 0, 0, 0⟩ }) := by
      rw [Xlinux.vmAreaAlloc, if_pos usable.1]
      rfl
    have ready := mapped.ready usable fresh apart ⟨0, 0, 0, 0, 0, 0, 0, dummyVmOps⟩ ⟨0, 0, 0, 0⟩
    have filled := ready.fill (fun area => { area with
      vmOps := 0, vmStart := addr, vmEnd := addr + len, vmPgoff := addr >>> pageShift
      vmFlags := flags }) fun _ => ⟨rfl, rfl⟩
    dsimp only
    rw [Hoare.Returns, bind_of_ok alloc, if_neg usable.1]
    refine returns_modify
      ((filled.link wide (PageAligned.add wide aligned)).bind fun _ after ran => ?_)
    obtain ⟨⟨next, grown, labels⟩, range, kept⟩ := ran
    refine returns_modify (returns_pure ⟨rfl, kept, range.trans ?_, next, ?_, fun one => ?_⟩)
    · funext one
      by_cases here : one = vma
      · rw [here, update_self]
        exact filled.filled
      · show rangeOf (VmAreas.write (update same.areas vma _) vma _) one = _
        rw [update_of_ne here, rangeOf, write_of_ne here, update_of_ne here, rangeOf]
    · exact ⟨grown.owns, grown.root, grown.valid, grown.linked, grown.ordered, grown.aligned,
        grown.summed⟩
    · rw [labels, true_and]

/-- A range that is larger than the address space is refused. -/
theorem doBrkFlags_large (large : taskSize < len) :
    doBrkFlags addr len 0 vma mm = .ok (-enomem, mm) := by
  have refused : getUnmappedArea addr len mapFixed = .ok (ofCInt (-enomem)) := if_pos large
  rw [doBrkFlags, if_neg (by decide : ¬(0 : UInt64) &&& ~~~vmExec ≠ 0), refused]
  exact congrArg (fun error => Except.ok (error, mm))
    (by decide : toCInt (ofCInt (-enomem)) = -enomem)

theorem pageAligned_pageAlign (addr : UInt64) : PageAligned (pageAlign addr) := by
  have rounded : (pageAlign addr).toNat = _ :=
    toNat_roundDown (show pageSize.toNat = 2 ^ 12 from rfl) (addr + pageSize - 1)
  rw [PageAligned, rounded]
  exact Nat.dvd_sub_mod _

theorem vmStartGap_le (area : VmAreaStruct) : vmStartGap area ≤ area.vmStart := by
  rw [vmStartGap]
  split
  · dsimp only
    split
    · exact UInt64.zero_le
    · next wraps => exact UInt64.not_lt.mp wraps
  · exact UInt64.le_refl _

end Grow

/-! ### Runs -/

/-- Every page of the heap is in an area, and the areas do not overlap. -/
def BrkMm.HeapMapped (mm : BrkMm) : Prop :=
  ∃ tree : MaxTree, Represents ⟨mm.nodes, mm.mmRb⟩ tree ∧
    (tree.labels.Pairwise fun one other => (mm.areas one).vmEnd ≤ (mm.areas other).vmStart) ∧
    ∀ a, mm.startBrk ≤ a → a < pageAlign mm.brk →
      ∃ vma ∈ tree.labels, (mm.areas vma).vmStart ≤ a ∧ a < (mm.areas vma).vmEnd

/-- What a call is to do: it moves the end of the heap, or changes nothing. -/
def BrkCall.Served (call : BrkCall) (mm : BrkMm) (returned : Kernel (UInt64 × BrkMm)) : Prop :=
  ∃ result after, returned = .ok (result, after) ∧
    (result = call.brk ∧ after.brk = call.brk ∧ after.HeapMapped ∨ result = mm.brk ∧ after = mm)

/-- A call does not move the end of the heap to a lower page. -/
def BrkCall.Careful (rlim : UInt64) (call : BrkCall) (mm : BrkMm) : Prop :=
  call.brk ≤ mm.brk → pageAlign mm.brk = pageAlign call.brk ∨ call.brk < mm.endData ∨
    checkDataRlimit rlim call.brk mm.startBrk mm.endData mm.startData ≠ 0

/-- A process: its heap is mapped, and there is an area above the heap. -/
structure BrkMm.Sound (mm : BrkMm) (tree : MaxTree) : Prop where
  mapped : Mapped mm.toMmStruct tree 0
  covered : ∀ a, mm.startBrk ≤ a → a < pageAlign mm.brk →
    ∃ vma ∈ tree.labels, (mm.areas vma).vmStart ≤ a ∧ a < (mm.areas vma).vmEnd
  above : ∃ vma ∈ tree.labels, pageAlign mm.brk < (mm.areas vma).vmEnd
  user : ∀ vma ∈ tree.labels, (mm.areas vma).vmEnd ≤ taskSize
  unlocked : mm.defFlags &&& vmLocked = 0

section Runs

variable {mm : BrkMm} {tree : MaxTree} {rlim : UInt64} {call : BrkCall}

theorem BrkMm.Sound.heapMapped (sound : mm.Sound tree) : mm.HeapMapped :=
  ⟨tree, sound.mapped.represents, sound.mapped.ordered.sorted, sound.covered⟩

/-- The heap grows by a new area below the next one. -/
theorem BrkMm.Sound.grow {next newbrk : UInt64} (sound : mm.Sound tree) (usable : Usable call.vma)
    (fresh : call.vma ∉ tree.labels) (sorted : mm.areas.Sorted tree.labels)
    (found : firstAbove mm.areas (pageAlign mm.brk) tree.labels = some next)
    (room : newbrk + pageSize ≤ (mm.areas next).vmStart) (moved : pageAlign mm.brk ≠ newbrk)
    (small : newbrk - pageAlign mm.brk ≤ taskSize) (same : newbrk = pageAlign call.brk) :
    ∃ after, doBrkFlags (pageAlign mm.brk) (newbrk - pageAlign mm.brk) 0 call.vma mm.toMmStruct =
        .ok (0, after) ∧ ∃ next : MaxTree,
      BrkMm.Sound { mm with toMmStruct := after, brk := call.brk } next ∧
        ∀ one ∈ next.labels, one ∈ tree.labels ∨ one = call.vma := by
  have lowest := sorted.lowestAbove found
  have forward := sorted.forward next lowest.member
  have user := sound.user next lowest.member
  have back : pageAlign mm.brk + (newbrk - pageAlign mm.brk) = newbrk :=
    (UInt64.add_comm ..).trans (UInt64.sub_add_cancel ..)
  -- the new end does not wrap around, and is below the next area
  obtain ⟨up, more, low, below⟩ : pageAlign mm.brk < newbrk ∧ 0 < newbrk - pageAlign mm.brk ∧
      pageAlign mm.brk ≤ taskSize - (newbrk - pageAlign mm.brk) ∧
        newbrk < (mm.areas next).vmStart := by
    have size : taskSize.toNat = 2 ^ 38 := rfl
    have page : pageSize.toNat = 4096 := rfl
    have above := lt_iff_toNat_lt.mp lowest.above
    rw [le_iff_toNat_le] at forward user small room
    have sum := toNat_add_of_lt
      (show (pageAlign mm.brk).toNat + (newbrk - pageAlign mm.brk).toNat < 2 ^ 64 by omega)
    rw [back] at sum
    rw [toNat_add_of_lt (show newbrk.toNat + pageSize.toNat < 2 ^ 64 by omega)] at room
    have different : newbrk.toNat ≠ (pageAlign mm.brk).toNat := fun same =>
      moved (UInt64.toNat_inj.mp same.symm)
    simp only [lt_iff_toNat_lt, le_iff_toNat_le, toNat_sub_of_toNat_le small,
      UInt64.toNat_zero]
    omega
  have behind : ∀ one ∈ tree.labels, pageAlign mm.brk < (mm.areas one).vmEnd →
      newbrk ≤ (mm.areas one).vmStart := by
    intro one member high
    rcases sorted.eq_or_le found member high with rfl | apart
    · exact UInt64.le_of_lt below
    · exact UInt64.le_trans (UInt64.le_of_lt below) (UInt64.le_trans forward apart)
  have aligned : PageAligned (newbrk - pageAlign mm.brk) := by
    rw [PageAligned, toNat_sub_of_toNat_le (le_iff_toNat_le.mp (UInt64.le_of_lt up)), same]
    exact Nat.dvd_sub (pageAligned_pageAlign call.brk) (pageAligned_pageAlign mm.brk)
  obtain ⟨_, after, ran, rfl, flags, range, grown, mapped, labels⟩ :=
    sound.mapped.growBrk usable fresh
    ⟨pageAligned_pageAlign mm.brk, aligned⟩ more small low (back.symm ▸ behind)
  rw [back] at range
  have old : ∀ one ∈ tree.labels, rangeOf after.areas one = rangeOf mm.areas one := by
    intro one member
    rw [range, update_of_ne (ne_of_mem_of_not_mem member fresh)]
  have new : rangeOf after.areas call.vma = ⟨pageAlign mm.brk, newbrk⟩ := by
    rw [range, update_self]
  refine ⟨after, ran, grown, ?_, fun one => (labels one).mp⟩
  exact {
    mapped := mapped
    covered := by
      intro a start stop
      by_cases inside : a < pageAlign mm.brk
      · obtain ⟨one, member, here⟩ := sound.covered a start inside
        refine ⟨one, (labels one).mpr (.inl member), ?_⟩
        show (rangeOf after.areas one).vaStart ≤ a ∧ a < (rangeOf after.areas one).vaEnd
        rw [old one member]
        exact here
      · refine ⟨call.vma, (labels call.vma).mpr (.inr rfl), ?_⟩
        show (rangeOf after.areas call.vma).vaStart ≤ a ∧ a < (rangeOf after.areas call.vma).vaEnd
        rw [new, same]
        exact ⟨UInt64.not_lt.mp inside, stop⟩
    above := by
      refine ⟨next, (labels next).mpr (.inl lowest.member), ?_⟩
      show pageAlign call.brk < (rangeOf after.areas next).vaEnd
      rw [old next lowest.member, ← same]
      exact UInt64.lt_of_lt_of_le below forward
    user := by
      intro one member
      show (rangeOf after.areas one).vaEnd ≤ taskSize
      rcases (labels one).mp member with before | rfl
      · rw [old one before]
        exact sound.user one before
      · rw [new]
        exact UInt64.le_trans (UInt64.le_of_lt below) (UInt64.le_trans forward user)
    unlocked := flags.symm ▸ sound.unlocked }

/-- One call. -/
theorem BrkMm.Sound.doSysBrk (sound : mm.Sound tree) (usable : Usable call.vma)
    (fresh : call.vma ∉ tree.labels) (careful : call.Careful rlim mm) :
    ∃ result after, Xlinux.doSysBrk rlim call mm = .ok (result, after) ∧
      (result = call.brk ∧ after.brk = call.brk ∨ result = mm.brk ∧ after = mm) ∧
      ∃ next : MaxTree, after.Sound next ∧
        ∀ one ∈ next.labels, one ∈ tree.labels ∨ one = call.vma := by
  have unchanged : ∃ next : MaxTree, mm.Sound next ∧
      ∀ one ∈ next.labels, one ∈ tree.labels ∨ one = call.vma := ⟨tree, sound, fun _ => .inl⟩
  rw [Xlinux.doSysBrk]
  split
  case isTrue => exact ⟨_, _, rfl, .inr ⟨rfl, rfl⟩, unchanged⟩
  case isFalse high =>
  split
  case isTrue => exact ⟨_, _, rfl, .inr ⟨rfl, rfl⟩, unchanged⟩
  case isFalse limit =>
  dsimp only
  split
  case isTrue same =>
    refine ⟨_, _, rfl, .inl ⟨rfl, rfl⟩, tree, ?_, fun _ => .inl⟩
    exact { sound with covered := same ▸ sound.covered, above := same ▸ sound.above }
  case isFalse moved =>
  split
  case isTrue shrinks =>
    rcases careful shrinks with same | low | limited
    · exact absurd same moved
    · exact absurd low high
    · exact absurd limited limit
  case isFalse =>
  obtain ⟨one, inside, above⟩ := sound.above
  have sorted : mm.areas.Sorted tree.labels := ⟨sound.mapped.ordered.sorted, fun vma member =>
    UInt64.le_of_lt (sound.mapped.ordered.nonempty vma member)⟩
  rw [sound.mapped.represents.findVma sorted]
  cases found : firstAbove mm.areas (pageAlign mm.brk) tree.labels with
  | none => exact absurd above (firstAbove_eq_none.mp found one inside)
  | some next =>
    dsimp only [Kernel.ok_bind, Option.getD]
    split_ifs with room
    · exact ⟨_, _, rfl, .inr ⟨rfl, rfl⟩, unchanged⟩
    · by_cases small : pageAlign call.brk - pageAlign mm.brk ≤ taskSize
      · have nonzero : next ≠ 0 := ne_of_mem_of_not_mem (sorted.lowestAbove found).member
          sound.mapped.zero_not_mem
        have below := UInt64.not_lt.mp fun high => room ⟨nonzero, high⟩
        obtain ⟨after, ran, grown, soundAfter, labels⟩ := sound.grow usable fresh sorted found
          (UInt64.le_trans below (vmStartGap_le _)) moved small rfl
        rw [ran]
        dsimp only [Kernel.ok_bind]
        rw [if_neg (by decide), if_neg fun both => both.2 soundAfter.unlocked]
        exact ⟨_, _, rfl, .inl ⟨rfl, rfl⟩, grown, soundAfter, labels⟩
      · rw [doBrkFlags_large (UInt64.not_le.mp small)]
        exact ⟨_, _, rfl, .inr ⟨rfl, rfl⟩, unchanged⟩

end Runs

/-- In a run in which no call moves the end of the heap to a lower page, every call moves it, and
the heap is mapped up to it, or it changes nothing. Every call has memory for a new area. -/
theorem doSysBrk_run (rlim : UInt64) (calls : List BrkCall) (mm : BrkMm) (tree : Tree UInt64 UInt64)
    (sound : mm.Sound tree) (usable : ∀ call ∈ calls, Usable call.vma)
    (distinct : (calls.map BrkCall.vma ++ tree.labels).Nodup) (result : UInt64)
    (careful : Run.Through (brkCall rlim) (fun state call _ => call.Careful rlim state.2)
      (result, mm) calls) :
    Run.Through (brkCall rlim) (fun state call returned => call.Served state.2 returned)
      (result, mm) calls := by
  induction calls generalizing mm tree result with
  | nil => trivial
  | cons call rest ih =>
    rw [List.map_cons, List.cons_append, List.nodup_cons, List.mem_append, not_or] at distinct
    obtain ⟨⟨later, fresh⟩, distinct⟩ := distinct
    obtain ⟨usableHere, usableRest⟩ := List.forall_mem_cons.mp usable
    obtain ⟨returned, after, ran, outcome, next, soundAfter, labels⟩ :=
      sound.doSysBrk usableHere fresh careful.1
    refine ⟨⟨returned, after, ran, ?_⟩, fun state same => ?_⟩
    · exact outcome.imp_left fun ⟨value, moved⟩ => ⟨value, moved, soundAfter.heapMapped⟩
    · obtain rfl : (returned, after) = state := Except.ok.inj (ran.symm.trans same)
      refine ih after next soundAfter usableRest ?_ returned (careful.2 _ ran)
      rw [List.nodup_append] at distinct ⊢
      refine ⟨distinct.1, soundAfter.mapped.represents.nodup, fun one waiting other inside => ?_⟩
      rcases labels other inside with before | rfl
      · exact distinct.2.2 one waiting other before
      · exact ne_of_mem_of_not_mem waiting later

/-- A process with a stack, and a heap that is empty. -/
def stackMm : BrkMm where
  areas _ := ⟨0x800000, 0x900000, 0, 0, 0, 0, 0, 0⟩
  nodes _ := ⟨1, 0, 0, 0x800000⟩
  mmRb := 64
  mmap := 64
  highestVmEnd := 0x900000
  totalVm := 256
  dataVm := 0
  defFlags := 0
  brk := 0x3000
  startBrk := 0x3000
  startData := 0x1000
  endData := 0x2000

theorem sound_stackMm : stackMm.Sound (.node .black .leaf 64 0x800000 .leaf) where
  mapped := {
    owns := {
      nodup := by decide
      usable := by decide
      holds := by simp [treeCells, cell, stackMm, rootPtr, packed, colorWord] }
    root := rfl
    valid := ⟨rfl, ⟨nofun, trivial, trivial⟩, 1, 0, rfl, rfl, rfl⟩
    linked := ⟨rfl, rfl, rfl⟩
    ordered :=
    ⟨List.pairwise_singleton .., fun _ _ => show (0x800000 : UInt64) < 0x900000 by decide⟩
    aligned := fun _ _ => ⟨⟨0x800, rfl⟩, ⟨0x900, rfl⟩⟩
    summed := ⟨fun _ => rfl, trivial, trivial⟩ }
  covered a low high := absurd (UInt64.lt_of_le_of_lt low high) (by decide)
  above := ⟨64, List.mem_singleton_self _, by decide⟩
  user _ _ := show (0x900000 : UInt64) ≤ taskSize by decide
  unlocked := by decide

/-- The heap grows by two pages. -/
theorem doSysBrk_run_grows :
    Run.Through (brkCall (~~~0)) (fun state call returned => call.Served state.2 returned)
      (0, stackMm) [⟨0x5000, 128, 0⟩] :=
  doSysBrk_run (~~~0) [⟨0x5000, 128, 0⟩] stackMm _ sound_stackMm
    (by decide) (by decide) 0 ⟨fun low => absurd low (by decide), fun _ _ => trivial⟩

/-- The heap grows by two pages, and is to shrink by one. -/
theorem doSysBrk_shrink_panics :
    stackMm.Sound (.node .black .leaf 64 0x800000 .leaf) ∧
    ((Run.run (brkCall (~~~0)) (0, stackMm) [⟨0x5000, 128, 0⟩]).map fun (result, mm) =>
      (result, mm.brk, rangeOf mm.areas 128)) = .ok (0x5000, 0x5000, ⟨0x3000, 0x5000⟩) ∧
    ((Run.run (brkCall (~~~0)) (0, stackMm) [⟨0x5000, 128, 0⟩, ⟨0x4000, 192, 0⟩]).map fun _ => ()) =
      .error (.panic "brk <= mm->brk") :=
  ⟨sound_stackMm, by decide +kernel, by decide +kernel⟩

end Xlinux
