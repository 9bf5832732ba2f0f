/-
This file is about runs of the calls that change the areas of a process:
`insert_vm_struct`, `mmap_region`, `do_brk_flags` and `expand_stack`. The calls do
not check all of what they are given; as long as the ranges are page-aligned and
not empty and a stack does not grow into the area before it, the areas stay in
order and the list, the tree and the gaps agree.
-/

import Xlinux.Mmap.Space

namespace Xlinux

open RedBlack Cells Hoare Links List UInt64

section Operations

variable {mm : MmStruct} {tree : MaxTree} {frames : List MaxFrame} {vma addr len : UInt64}

/-! ### New areas -/

/-- `insert_vm_struct`, with an area that the caller has filled in. -/
theorem Mapped.insertVmStruct {record : RbNode UInt64}
    (mapped : Mapped mm tree (cell vma record + 0))
    (nonempty : (mm.areas vma).vmStart < (mm.areas vma).vmEnd)
    (aligned : PageAligned (mm.areas vma).vmStart ∧ PageAligned (mm.areas vma).vmEnd) :
    Ensures (Xlinux.insertVmStruct vma) mm fun result after =>
      Grown vma tree (result = 0) after := by
  rw [Xlinux.insertVmStruct]
  refine ensures_get ?_
  refine mapped.represents.findVmaLinks.ensures.bind fun result same ran => ?_
  obtain ⟨rfl, -, found⟩ := ran
  cases result with
  | none => exact ensures_pure ⟨tree, mapped.drop, fun one => by simp [enomem]⟩
  | some links =>
    obtain ⟨place, rfl, rfl, apart⟩ := found links rfl
    have filled : Prepared same place vma (rangeOf same.areas vma) :=
      ⟨⟨⟨record, mapped⟩, apart⟩, rfl⟩
    have linked {mm : MmStruct} (filled : Prepared mm place vma (rangeOf same.areas vma)) :
        Ensures (do Xlinux.vmaLink vma (linksOf place); return (0 : Int)) mm fun result after =>
          Grown vma (fill place .leaf) (result = 0) after := by
      refine ((filled.link nonempty aligned).ensures.bind_pure (0 : Int)).mono ?_
      rintro _ after ⟨rfl, grown, -⟩
      simpa using grown
    dsimp only
    split
    · exact ensures_modify (linked (filled.keep _ fun _ => ⟨rfl, rfl⟩))
    · exact linked filled

/-- The end of a range of whole pages that does not wrap around. -/
theorem PageAligned.add (wide : addr < addr + len) (aligned : PageAligned addr ∧ PageAligned len) :
    PageAligned addr ∧ PageAligned (addr + len) := by
  refine ⟨aligned.1, ?_⟩
  rw [PageAligned, toNat_add_of_lt_self wide]
  exact Nat.dvd_add aligned.1 aligned.2

/-- `vm_area_alloc` makes memory for an area. -/
theorem Mapped.vmAreaAlloc {range : VmapArea} (mapped : Mapped mm (fill frames .leaf) 0)
    (unused : vma ≠ 0 → Usable vma ∧ vma ∉ (fill frames (Tree.leaf : MaxTree)).labels)
    (apart : ∀ frame ∈ frames, Apart (rangeOf mm.areas) range frame) :
    Ensures (Xlinux.vmAreaAlloc vma) mm fun result after =>
      result = vma ∧ (vma ≠ 0 → Ready after frames vma range) := by
  rw [Xlinux.vmAreaAlloc]
  split
  case isTrue nonzero =>
    refine ensures_modify (ensures_pure ⟨rfl, fun _ => ?_⟩)
    exact mapped.ready (unused nonzero).1 (unused nonzero).2 apart _ _
  case isFalse zero => exact ensures_pure ⟨rfl, zero.elim⟩

theorem ensures_genericFileMmap {file : VmFile} :
    Ensures (genericFileMmap file vma) mm fun result after => result = 0 ∧
      after = { mm with areas := mm.areas.write vma fun area =>
        { area with vmOps := genericFileVmOps } } := by
  rw [genericFileMmap]
  exact ensures_guard fun _ => ensures_modify (ensures_pure ⟨rfl, rfl⟩)

/-- `mmap_region`. -/
theorem Mapped.mmapRegion {file : VmFile} {vmFlags pgoff : UInt64} (mapped : Mapped mm tree 0)
    (unused : vma ≠ 0 → Usable vma ∧ vma ∉ tree.labels) (wide : addr < addr + len)
    (aligned : PageAligned addr ∧ PageAligned len) :
    Ensures (Xlinux.mmapRegion file addr len vmFlags pgoff vma) mm fun _ after =>
      Grown vma tree True after := by
  rw [Xlinux.mmapRegion]
  refine mapped.represents.findVmaLinks.ensures.bind fun result same ran => ?_
  obtain ⟨rfl, -, found⟩ := ran
  cases result with
  | none => exact ensures_throw
  | some links =>
    obtain ⟨_, rfl, rfl, apart⟩ := found links rfl
    generalize (if accountableMapping vmFlags then vmFlags ||| vmAccount else vmFlags) = vmFlags
    refine (mapped.vmAreaAlloc unused apart).bind fun result first ran => ?_
    obtain ⟨rfl, ready⟩ := ran
    refine ensures_guard fun nonzero => ?_
    have filled := (ready nonzero).fill (fun area => { area with
      vmStart := addr, vmEnd := addr + len, vmFlags := vmFlags, vmPgoff := pgoff }) fun _ =>
        ⟨rfl, rfl⟩
    refine ensures_modify ?_
    split
    case isFalse => exact ensures_guard fun _ => ensures_throw
    case isTrue =>
      refine ensures_guard fun _ => ?_
      have named := filled.keep (fun area => { area with vmFile := file.ptr }) fun _ => ⟨rfl, rfl⟩
      refine ensures_modify ?_
      refine ensures_genericFileMmap.bind fun _ second ran => ?_
      obtain ⟨rfl, rfl⟩ := ran
      have prepared := named.keep (fun area => { area with vmOps := genericFileVmOps })
        fun _ => ⟨rfl, rfl⟩
      refine ensures_get (ensures_guard fun _ => ensures_guard fun _ => ?_)
      exact (prepared.link wide (PageAligned.add wide aligned)).ensures.bind
        fun _ after ran => ensures_pure ran.1

/-- What `get_unmapped_area` returns for a fixed address. -/
theorem getUnmappedArea_spec {result : UInt64}
    (ran : getUnmappedArea addr len mapFixed = .ok result) :
    result = ofCInt (-enomem) ∨ isErrValue result = false ∧ len ≤ taskSize ∧ addr ≤ taskSize - len ∧
      offsetInPage addr = 0 := by
  rw [getUnmappedArea] at ran
  split_ifs at ran with small
  · cases ran
    exact .inl rfl
  · rw [archGetUnmappedAreaTopdown, if_pos (by decide), pure_bind] at ran
    split_ifs at ran with fine low inPage
    cases ran
    exact .inr ⟨Bool.eq_false_iff.mpr fine, UInt64.not_lt.mp small, UInt64.not_lt.mp low,
      not_not.mp inPage⟩

theorem pageAligned_of_offsetInPage (zero : offsetInPage addr = 0) : PageAligned addr := by
  have low := toNat_pageOffset addr
  rw [show addr &&& (pageSize - 1) = 0 from zero] at low
  exact Nat.dvd_of_mod_eq_zero low.symm

/-- A range below `TASK_SIZE` does not wrap around. -/
theorem lt_add_of_le_taskSize (positive : 0 < len) (small : len ≤ taskSize)
    (low : addr ≤ taskSize - len) : addr < addr + len := by
  have size : taskSize.toNat = 2 ^ 38 := rfl
  rw [le_iff_toNat_le] at small low
  rw [toNat_sub_of_toNat_le small] at low
  have more := lt_iff_toNat_lt.mp positive
  have sum := toNat_add_of_lt (show addr.toNat + len.toNat < 2 ^ 64 by omega)
  rw [lt_iff_toNat_lt, sum]
  exact Nat.lt_add_of_pos_right more

/-- `do_brk_flags`. -/
theorem Mapped.doBrkFlags {flags : UInt64} (mapped : Mapped mm tree 0)
    (unused : vma ≠ 0 → Usable vma ∧ vma ∉ tree.labels) (positive : 0 < len)
    (aligned : PageAligned len) :
    Ensures (Xlinux.doBrkFlags addr len flags vma) mm fun result after =>
      Grown vma tree (result = 0) after := by
  have unchanged : ∀ {result : Int}, result ≠ 0 → Grown vma tree (result = 0) mm :=
    fun failed => ⟨tree, mapped, fun one => by simp [failed]⟩
  rw [Xlinux.doBrkFlags]
  split_ifs
  · exact ensures_pure (unchanged (by decide))
  · refine ensures_get ?_
    generalize flags ||| vmDataDefaultFlags ||| vmAccount ||| mm.defFlags = flags
    refine ensures_lift fun mappedAddr mappable => ?_
    rcases getUnmappedArea_spec mappable with rfl | ⟨address, small, low, inPage⟩
    · exact ensures_pure (unchanged (by decide))
    · rw [address]
      have wide := lt_add_of_le_taskSize positive small low
      have whole := PageAligned.add wide ⟨pageAligned_of_offsetInPage inPage, aligned⟩
      refine mapped.represents.findVmaLinks.ensures.bind fun result same ran => ?_
      obtain ⟨rfl, -, found⟩ := ran
      cases result with
      | none => exact ensures_throw
      | some links =>
        obtain ⟨_, rfl, rfl, apart⟩ := found links rfl
        refine (mapped.vmAreaAlloc unused apart).bind fun result first ran => ?_
        obtain ⟨rfl, ready⟩ := ran
        refine ensures_guard fun nonzero => ?_
        have filled := (ready nonzero).fill (fun area => { area with
          vmOps := 0, vmStart := addr, vmEnd := addr + len, vmPgoff := addr >>> pageShift
          vmFlags := flags }) fun _ => ⟨rfl, rfl⟩
        refine ensures_modify ?_
        refine (filled.link wide whole).ensures.bind fun _ second ran => ?_
        obtain ⟨⟨next, after, labels⟩, -⟩ := ran
        refine ensures_modify (ensures_pure ⟨next, ?_, fun one => (labels one).trans (by simp)⟩)
        exact ⟨after.owns, after.root, after.valid, after.linked, after.ordered, after.aligned,
          after.summed⟩

/-! ### Growing stacks -/

/-- What is before an area ends where the last of it ends, or before that. -/
theorem Ordered.vaEnd_le_last {areas : VmapAreas} {nodes : List UInt64} {one : UInt64}
    {bound : UInt64}
    (ordered : Ordered areas nodes) (below : nodes.getLastD 0 ≠ 0 →
      (areas (nodes.getLastD 0)).vaEnd ≤ bound)
    (nonzero : 0 ∉ nodes) (member : one ∈ nodes) : (areas one).vaEnd ≤ bound := by
  rcases eq_nil_or_concat nodes with rfl | ⟨before, last, rfl⟩
  · cases member
  · rw [concat_eq_append] at below nonzero member ordered
    rw [getLastD_concat] at below
    have lastEnd : (areas last).vaEnd ≤ bound := by
      refine below ?_
      rintro rfl
      exact nonzero (by simp)
    rcases mem_append.mp member with earlier | same
    · have order := (pairwise_append.mp ordered.sorted).2.2 one earlier last mem_cons_self
      have wide := ordered.nonempty last (by simp)
      exact UInt64.le_trans order (UInt64.le_trans (UInt64.le_of_lt wide) lastEnd)
    · rw [mem_singleton.mp same]
      exact lastEnd

/-- An area starts at a lower address, behind the area before it, and the gaps are brought up to
date. -/
theorem Mapped.lowerStart {address moved : UInt64} (mapped : Mapped mm tree 0)
    (member : vma ∈ tree.labels) (lower : address < (mm.areas vma).vmStart)
    (aligned : PageAligned address)
    (above : (mm.areas vma).vmPrev ≠ 0 → (mm.areas (mm.areas vma).vmPrev).vmEnd ≤ address) :
    let areas := mm.areas.write vma fun area =>
      { area with vmStart := address, vmPgoff := area.vmPgoff - moved }
    Ensures (vmaGapUpdate vma) { mm with areas } fun _ after =>
      ∃ next : MaxTree, Mapped after next 0 ∧ next.labels = tree.labels := by
  intro areas
  have start : (areas vma).vmStart = address := congrArg VmAreaStruct.vmStart write_self
  have other : ∀ one ≠ vma, areas one = mm.areas one := fun one => write_of_ne
  have ends : ∀ one, (areas one).vmEnd = (mm.areas one).vmEnd :=
    fun one => field_write _ _ _ fun _ => rfl
  have nexts : MmStruct.next { mm with areas } = mm.next := by
    funext one
    have same : (areas one).vmNext = (mm.areas one).vmNext := field_write _ _ _ fun _ => rfl
    rw [MmStruct.next, same, MmStruct.next]
  have prevs : MmStruct.prev { mm with areas } = mm.prev := by
    funext one
    exact (field_write _ _ _ fun _ => rfl : (areas one).vmPrev = (mm.areas one).vmPrev)
  have gaps : ∀ one ≠ vma, vmaComputeGap areas one = vmaComputeGap mm.areas one := by
    intro one different
    have endGap : ∀ other, vmEndGap (areas other) = vmEndGap (mm.areas other) :=
      fun other => field_write _ _ _ fun _ => rfl
    rw [vmaComputeGap, vmaComputeGap, other one different, endGap]
  have ordered : Ordered (rangeOf areas) tree.labels := by
    obtain ⟨before, after, split⟩ := append_of_mem member
    have zero := mapped.zero_not_mem
    have distinct := mapped.represents.nodup
    have order := mapped.ordered
    have list := mapped.linked
    rw [split] at zero distinct order list ⊢
    have back : (mm.areas vma).vmPrev = before.getLastD 0 := list.prev_eq
    rw [back] at above
    have outside := (nodup_cons.mp (nodup_middle.mp distinct)).1
    have rest : Ordered (rangeOf areas) (before ++ after) := by
      refine (order.sublist ?_).congr fun one inside => ?_
      · simp
      · rw [rangeOf, rangeOf, other _ (ne_of_mem_of_not_mem inside outside)]
    have last : ∀ one ∈ before, (mm.areas one).vmEnd ≤ address := by
      have earlier : Ordered (rangeOf mm.areas) before := order.sublist (sublist_append_left ..)
      exact fun one => earlier.vaEnd_le_last above fun inside => zero (mem_append_left _ inside)
    refine rest.insert ?_ ?_ ?_
    · show (areas vma).vmStart < (areas vma).vmEnd
      rw [start, ends]
      refine UInt64.lt_of_lt_of_le lower (UInt64.le_of_lt (order.nonempty vma (by simp)))
    · intro one inside
      show (areas one).vmEnd ≤ (areas vma).vmStart
      rw [start, ends]
      exact last one inside
    · intro one inside
      show (areas vma).vmEnd ≤ (areas one).vmStart
      rw [ends, other _ (ne_of_mem_of_not_mem (mem_append_right _ inside) outside)]
      exact (pairwise_cons.mp (pairwise_append.mp order.sorted).2.1).1 one inside
  obtain ⟨frames, color, left, entry, right, rfl⟩ := exists_fill_of_mem_labels member
  have holds : Holds ⟨MmStruct.nodes { mm with areas := areas }, mm.mmRb⟩ _ _ := mapped.holds
  refine ensures_get ?_
  refine (returns_onMmRb (holds.maxPropagate (vmaComputeGap areas))).ensures.mono
    fun _ after ran => ?_
  obtain ⟨_, _, rfl, holds⟩ := ran
  have valid :
      (refresh (maxAugment (vmaComputeGap areas)) frames color left vma entry right).Valid :=
    valid_refresh mapped.valid
  have summed := summed_refresh_congr mapped.represents.nodup mapped.summed fun node _ => gaps node
  have labels : (refresh (maxAugment (vmaComputeGap areas)) frames color left vma
    entry right).labels = _ := labels_refresh
  -- Only the labels of the new tree count from here on.
  generalize refresh (maxAugment (vmaComputeGap areas)) frames color left vma
    entry right = next at holds valid summed labels
  refine ⟨next, ⟨holds.owns, holds.root, valid, ?_, ?_, ?_, summed⟩, labels⟩
  · have list := mapped.linked
    rwa [← nexts, ← prevs, ← labels] at list
  · exact labels ▸ ordered
  · intro one inside
    obtain ⟨startAligned, endAligned⟩ := mapped.aligned one (labels ▸ inside)
    show PageAligned (areas one).vmStart ∧ PageAligned (areas one).vmEnd
    rw [ends]
    refine ⟨?_, endAligned⟩
    rcases eq_or_ne one vma with rfl | different
    · exact start ▸ aligned
    · exact other one different ▸ startAligned

/-- `expand_downwards` lets an area start at a lower address, behind the area before it. -/
theorem Mapped.expandDownwards {address : UInt64} (mapped : Mapped mm tree 0)
    (member : vma ∈ tree.labels) (careful : address < (mm.areas vma).vmStart → PageAligned address ∧
      ((mm.areas vma).vmPrev ≠ 0 → (mm.areas (mm.areas vma).vmPrev).vmEnd ≤ address)) :
    Ensures (Xlinux.expandDownwards vma address) mm fun _ after =>
      ∃ next : MaxTree, Mapped after next 0 ∧ next.labels = tree.labels := by
  rw [Xlinux.expandDownwards]
  refine ensures_get ?_
  dsimp only
  split_ifs with lower
  · obtain ⟨aligned, above⟩ := careful lower
    refine ensures_modify ?_
    exact (mapped.lowerStart member lower aligned above).bind fun _ after ran => ensures_pure ran
  all_goals exact ensures_pure ⟨tree, mapped, rfl⟩

end Operations

/-! ### Runs -/

/-- A call, with the memory for a new area where one is needed. The caller of `insert_vm_struct` has
filled the area in. -/
inductive MmCall
  | insertVmStruct (vma : UInt64) (area : VmAreaStruct) (node : RbNode UInt64)
  | mmapRegion (file : VmFile) (addr len vmFlags pgoff vma : UInt64)
  | doBrkFlags (addr len flags vma : UInt64)
  | expandStack (vma address : UInt64)

/-- The areas of a process, and those that are linked. -/
structure MmUsers where
  mm : MmStruct
  live : List UInt64

/-- Memory that may be used for a new area. -/
def MmUsers.Unused (users : MmUsers) (vma : UInt64) : Prop := Usable vma ∧ vma ∉ users.live

instance (users : MmUsers) (vma : UInt64) : Decidable (users.Unused vma) :=
  inferInstanceAs (Decidable (Usable vma ∧ vma ∉ users.live))

/-- The state after a call, in which an area may have been linked. -/
def MmUsers.after {β : Type} (users : MmUsers) (vma : UInt64) (linked : β → Bool) :
    Kernel (β × MmStruct) → Except Halt MmUsers
  | .ok (result, mm) => .ok ⟨mm, if linked result then vma :: users.live else users.live⟩
  | .error fault => .error (.fault fault)

/-- One call. Memory for a new area is not in use, if there is any, and a stack that grows is
linked. -/
def mmCall (users : MmUsers) : MmCall → Except Halt MmUsers
  | .insertVmStruct vma area node =>
    if users.Unused vma then
      users.after vma (· = 0) (insertVmStruct vma { users.mm with
        areas := Function.update users.mm.areas vma area
        nodes := Function.update users.mm.nodes vma node })
    else .error .misuse
  | .mmapRegion file addr len vmFlags pgoff vma =>
    if vma ≠ 0 → users.Unused vma then
      users.after vma (fun _ => true) (mmapRegion file addr len vmFlags pgoff vma users.mm)
    else .error .misuse
  | .doBrkFlags addr len flags vma =>
    if vma ≠ 0 → users.Unused vma then
      users.after vma (· = 0) (doBrkFlags addr len flags vma users.mm)
    else .error .misuse
  | .expandStack vma address =>
    if vma ∈ users.live then users.after vma (fun _ => false) (expandDownwards vma address users.mm)
    else .error .misuse

/-- What the calls do not check: new ranges are of whole pages, not empty and do not wrap around,
and a stack grows to a page that is not in the area before it. -/
def MmCall.Careful (users : MmUsers) : MmCall → Prop
  | .insertVmStruct _ area _ =>
    area.vmStart < area.vmEnd ∧ PageAligned area.vmStart ∧ PageAligned area.vmEnd
  | .mmapRegion _ addr len _ _ _ => addr < addr + len ∧ PageAligned addr ∧ PageAligned len
  | .doBrkFlags _ len _ _ => 0 < len ∧ PageAligned len
  | .expandStack vma address => address < (users.mm.areas vma).vmStart → PageAligned address ∧
    ((users.mm.areas vma).vmPrev ≠ 0 → (users.mm.areas (users.mm.areas vma).vmPrev).vmEnd ≤ address)

/-- The linked areas are those of the tree. -/
structure Tracked (users : MmUsers) (tree : MaxTree) : Prop where
  mapped : Mapped users.mm tree 0
  live : ∀ vma, vma ∈ users.live ↔ vma ∈ tree.labels

section Runs

variable {users next : MmUsers} {tree : MaxTree} {vma : UInt64}

theorem Tracked.after {β : Type} {linked : β → Bool} {ran : Kernel (β × MmStruct)}
    (tracked : Tracked users tree)
    (grown : ∀ result mm, ran = .ok (result, mm) → Grown vma tree (linked result = true) mm)
    (same : users.after vma linked ran = .ok next) : ∃ tree, Tracked next tree := by
  cases ran with
  | error fault => cases same
  | ok pair =>
    obtain ⟨result, mm⟩ := pair
    cases same
    obtain ⟨nextTree, mapped, labels⟩ := grown result mm rfl
    refine ⟨nextTree, mapped, fun one => ?_⟩
    rw [labels, ← tracked.live]
    cases linked result with
    | true => simp [or_comm]
    | false => simp

theorem Tracked.unused (tracked : Tracked users tree) (unused : users.Unused vma) :
    Usable vma ∧ vma ∉ tree.labels :=
  ⟨unused.1, fun member => unused.2 ((tracked.live vma).mpr member)⟩

/-- A careful call keeps all of this. -/
theorem Tracked.mmCall {call : MmCall} (tracked : Tracked users tree) (careful : call.Careful users)
    (ran : Xlinux.mmCall users call = .ok next) : ∃ tree, Tracked next tree := by
  have mapped := tracked.mapped
  cases call with
  | insertVmStruct vma area node =>
    rw [Xlinux.mmCall] at ran
    split_ifs at ran with unused
    obtain ⟨usable, fresh⟩ := tracked.unused unused
    obtain ⟨nonempty, aligned⟩ := careful
    have filled := mapped.fresh usable fresh area node
    have stored : Function.update users.mm.areas vma area vma = area := Function.update_self ..
    rw [← stored] at nonempty aligned
    have inserted := filled.insertVmStruct nonempty aligned
    refine tracked.after (fun result mm returned => ?_) ran
    simpa using inserted result mm returned
  | mmapRegion file addr len vmFlags pgoff vma =>
    rw [Xlinux.mmCall] at ran
    split_ifs at ran with unused
    obtain ⟨wide, aligned⟩ := careful
    refine tracked.after (fun result mm returned => ?_) ran
    simpa using mapped.mmapRegion (tracked.unused <| unused ·) wide aligned result mm returned
  | doBrkFlags addr len flags vma =>
    rw [Xlinux.mmCall] at ran
    split_ifs at ran with unused
    obtain ⟨positive, aligned⟩ := careful
    refine tracked.after (fun result mm returned => ?_) ran
    simpa using mapped.doBrkFlags (tracked.unused <| unused ·) positive aligned result mm returned
  | expandStack vma address =>
    rw [Xlinux.mmCall] at ran
    split_ifs at ran with member
    have expanded := mapped.expandDownwards ((tracked.live vma).mp member) careful
    refine tracked.after (fun result mm returned => ?_) ran
    obtain ⟨nextTree, mapped, labels⟩ := expanded result mm returned
    exact ⟨nextTree, mapped, fun one => by rw [labels]; simp⟩

end Runs

/-- In a run of careful calls, the areas stay page-aligned, not empty and apart, the list is sorted
and has the areas of the tree in their order, and every node has the largest gap before an area of
its subtree. -/
theorem mmCall_run_mapped (mm : MmStruct) (tree : Tree UInt64 UInt64) (start : Mapped mm tree 0)
    (calls : List MmCall)
    (careful : Run.Along mmCall (fun users call _ => call.Careful users) ⟨mm, tree.labels⟩ calls)
    (users : MmUsers) (ran : Run.run mmCall ⟨mm, tree.labels⟩ calls = .ok users) :
    ∃ next : Tree UInt64 UInt64, Represents ⟨users.mm.nodes, users.mm.mmRb⟩ next ∧
      (∀ vma ∈ next.labels, PageAligned (users.mm.areas vma).vmStart ∧
        PageAligned (users.mm.areas vma).vmEnd ∧
        (users.mm.areas vma).vmStart < (users.mm.areas vma).vmEnd) ∧
      (next.labels.Pairwise fun one other =>
        (users.mm.areas one).vmEnd ≤ (users.mm.areas other).vmStart) ∧
      Linked users.mm.next users.mm.prev 0 next.labels 0 ∧
      Summed (maxOver (vmaComputeGap users.mm.areas)) next := by
  have preserved : ∀ users call next, (∃ tree, Tracked users tree) → call.Careful users →
      mmCall users call = .ok next → ∃ tree, Tracked next tree :=
    fun _ _ _ ⟨_, tracked⟩ careful ran => tracked.mmCall careful ran
  have begin : ∃ tree', Tracked ⟨mm, tree.labels⟩ tree' := ⟨tree, start, fun _ => Iff.rfl⟩
  obtain ⟨next, ⟨mapped, _⟩⟩ := Run.run_invariant_along preserved begin careful ran
  exact ⟨next, mapped.represents,
    fun vma member => ⟨(mapped.aligned vma member).1, (mapped.aligned vma member).2,
      mapped.ordered.nonempty vma member⟩,
    mapped.ordered.sorted, mapped.linked, mapped.summed⟩

/-- A process without areas. -/
def emptyMm : MmStruct where
  areas _ := ⟨0, 0, 0, 0, 0, 0, 0, 0⟩
  nodes _ := ⟨0, 0, 0, 0⟩
  mmRb := 0
  mmap := 0
  highestVmEnd := 0
  totalVm := 0
  dataVm := 0
  defFlags := 0

theorem mapped_emptyMm : Mapped emptyMm .leaf 0 where
  owns := ⟨by simp [treeCells], by simp [treeCells], by simp [treeCells]⟩
  root := rfl
  valid := ⟨rfl, trivial, 0, rfl⟩
  linked := rfl
  ordered := ⟨List.Pairwise.nil, nofun⟩
  aligned := nofun
  summed := trivial

/-- A stack of one page. -/
def insertStack : MmCall :=
    .insertVmStruct 64 ⟨0x3000, 0x4000, 0, 0, vmGrowsdown, 0, 0, 0⟩ ⟨0, 0, 0, 0⟩

/-- A stack of one page grows by a page. -/
theorem mmCall_run_mapped_stack :
    ∃ users, Run.run mmCall ⟨emptyMm, []⟩ [insertStack, .expandStack 64 0x2000] = .ok users ∧
      ∃ next : MaxTree, Represents ⟨users.mm.nodes, users.mm.mmRb⟩ next ∧
        Linked users.mm.next users.mm.prev 0 next.labels 0 ∧
        Summed (maxOver (vmaComputeGap users.mm.areas)) next := by
  have first : (mmCall ⟨emptyMm, []⟩ insertStack).map (fun users => (users.mm.areas 64).vmPrev) =
      .ok 0 := by decide +kernel
  have careful : Run.Along mmCall (fun users call _ => call.Careful users) ⟨emptyMm, []⟩
      [insertStack, .expandStack 64 0x2000] := by
    intro users ran
    refine ⟨⟨by decide, ⟨3, rfl⟩, ⟨4, rfl⟩⟩, fun _ _ =>
      ⟨fun _ => ⟨⟨2, rfl⟩, fun back => ?_⟩, trivial⟩⟩
    rw [ran] at first
    exact absurd (Except.ok.inj first) back
  have live :
      (Run.run mmCall ⟨emptyMm, []⟩ [insertStack, .expandStack 64 0x2000]).map MmUsers.live =
      .ok [64] := by decide +kernel
  obtain ⟨users, ran, -⟩ := exists_ok_of_map live
  obtain ⟨next, represents, _, _, linked, summed⟩ :=
    mmCall_run_mapped emptyMm .leaf mapped_emptyMm _ careful users ran
  exact ⟨users, ran, next, represents, linked, summed⟩

/-- A stack grows to an address inside a page, and into the area before it. -/
theorem expandStack_inPage_overlap :
    ((Run.run mmCall ⟨emptyMm, []⟩ [insertStack, .expandStack 64 0x2001]).map fun users =>
      (users.mm.mmap, users.mm.mmRb, rangeOf users.mm.areas 64)) = .ok (64, 64, ⟨0x2001, 0x4000⟩) ∧
    ¬PageAligned 0x2001 ∧
    ((Run.run mmCall ⟨emptyMm, []⟩ [insertStack, .insertVmStruct 128
        ⟨0x1000, 0x2000, 0, 0, 0, 0, 0, 0⟩ ⟨0, 0, 0, 0⟩, .expandStack 64 0x1000]).map fun users =>
      (users.live, rangeOf users.mm.areas 128, rangeOf users.mm.areas 64)) =
        .ok ([128, 64], ⟨0x1000, 0x2000⟩, ⟨0x1000, 0x4000⟩) := by
  refine ⟨by decide +kernel, ?_, by decide +kernel⟩
  rw [PageAligned]
  decide

end Xlinux
