/-
This file models the page tables of `include/page.h`, `include/pgtable.h` and
`include/pgalloc.h`: three levels of tables of 512 words each, in a memory of
words at kernel virtual addresses, with the pages that the page allocator hands
out next. The translation of an address is read off these words.
-/

import Xlinux.Kernel
import Xlinux.Word
import Xlinux.Lib.Ensures
import Xlinux.Lib.PageTree

namespace Xlinux

open PageTree Hoare Function Nat UInt64

/-! ### Entries -/

/-- `_PAGE_PRESENT`. -/
def pagePresent : UInt64 := oneShl 0

/-- `_PAGE_READ`. -/
def pageRead : UInt64 := oneShl 1

/-- `_PAGE_WRITE`. -/
def pageWrite : UInt64 := oneShl 2

/-- `_PAGE_EXEC`. -/
def pageExec : UInt64 := oneShl 3

/-- `_PAGE_TABLE`. -/
def pageTable : UInt64 := pagePresent

/-- `_PAGE_PROT_NONE`. -/
def pageProtNone : UInt64 := pageRead

/-- `_PAGE_PFN_SHIFT`. -/
def pagePfnShift : UInt64 := 10

/-- The bits of an entry below the frame number. -/
def protMask : UInt64 := (1 <<< pagePfnShift) - 1

/-- A protection: the bits of a present entry below the frame number. -/
structure Pgprot where
  bits : UInt64
  small : bits < 1 <<< pagePfnShift
  present : bits &&& (pagePresent ||| pageProtNone) ≠ 0

/-- The macro `pfn_pte(pfn, prot)`. -/
def pfnPte (pfn : UInt64) (prot : Pgprot) : UInt64 := (pfn <<< pagePfnShift) ||| prot.bits

/-- `pte_pfn`. -/
def ptePfn (pte : UInt64) : UInt64 := pte >>> pagePfnShift

/-- `PGDIR_SHIFT`. -/
def pgdirShift : Nat := 30

/-- `PMD_SHIFT`. -/
def pmdShift : Nat := 21

/-- The macros `pgd_index(a)`, `pmd_index(a)` and `pte_index(a)`. -/
def tableIndex (shift : Nat) (a : UInt64) : UInt64 := (a >>> UInt64.ofNat shift) &&& (512 - 1)

/-- The macro `pgd_index(a)`. -/
def pgdIndex (a : UInt64) : UInt64 := tableIndex pgdirShift a

/-- The macro `pmd_index(a)`. -/
def pmdIndex (a : UInt64) : UInt64 := tableIndex pmdShift a

/-- The macro `pte_index(a)`. -/
def pteIndex (a : UInt64) : UInt64 := tableIndex 12 a

/-- The macros `pgd_addr_end(addr, end)` and `pmd_addr_end(addr, end)`. -/
def addrEnd (shift : Nat) (addr stop : UInt64) : UInt64 :=
  let boundary := (addr + oneShl shift) &&& ~~~(oneShl shift - 1)
  if boundary - 1 < stop - 1 then boundary else stop

/-- The macro `pgd_addr_end(addr, end)`. -/
def pgdAddrEnd (addr stop : UInt64) : UInt64 := addrEnd pgdirShift addr stop

/-- The macro `pmd_addr_end(addr, end)`. -/
def pmdAddrEnd (addr stop : UInt64) : UInt64 := addrEnd pmdShift addr stop

/-! ### Tables in the memory -/

/-- The words of the memory by their kernel virtual address, and the frame numbers of the pages
that the page allocator hands out next. -/
structure PageMemory where
  word : UInt64 → UInt64
  free : List UInt64

/-- Code that works on the page tables. -/
abbrev Paging := StateT PageMemory Kernel

/-- The macro `pfn_to_virt(pfn)`. -/
def pfnToVirt (vaPaOffset pfn : UInt64) : UInt64 := (pfn <<< pageShift) + vaPaOffset

/-- The macro `virt_to_pfn(vaddr)`. -/
def virtToPfn (vaPaOffset vaddr : UInt64) : UInt64 := (vaddr - vaPaOffset) >>> pageShift

/-- `clear_page`. -/
def clearPage (word : UInt64 → UInt64) (page : UInt64) : UInt64 → UInt64 :=
  fun addr => if addr - page < pageSize then 0 else word addr

/-- `*p = value`. -/
def setWord (p value : UInt64) : Paging Unit :=
  modify fun memory => { memory with word := update memory.word p value }

section Tables

variable (vaPaOffset : UInt64)

/-- The address of a page of zeros, from `alloc_pages` with `__GFP_ZERO`. -/
def allocZeroedPage : Paging (Option UInt64) := do
  match (← get).free with
  | [] => return none
  | pfn :: rest =>
    let page := pfnToVirt vaPaOffset pfn
    modify fun memory => ⟨clearPage memory.word page, rest⟩
    return some page

/-- `pgd_populate`, `pmd_populate` and `pmd_populate_kernel`. -/
def pmdPopulate (entry page : UInt64) : Paging Unit :=
  setWord entry ((virtToPfn vaPaOffset page <<< pagePfnShift) ||| pageTable)

/-- `pgd_page_vaddr` and `pmd_page_vaddr`. -/
def pageVaddr (entry : UInt64) : UInt64 := pfnToVirt vaPaOffset (entry >>> pagePfnShift)

/-- `pmd_offset` and `pte_offset_kernel`, for the shift of the next level. -/
def tableOffset (shift : Nat) (entry address : UInt64) : Paging UInt64 := do
  return pageVaddr vaPaOffset ((← get).word entry) + 8 * tableIndex shift address

/-- `__pmd_alloc`. -/
def pmdAllocTable (pgd : UInt64) : Paging Int := do
  match ← allocZeroedPage vaPaOffset with
  | none => return -enomem
  | some new =>
    if (← get).word pgd &&& pagePresent = 0 then pmdPopulate vaPaOffset pgd new
    return 0

/-- `pmd_alloc`, `pmd_alloc_track` and `pte_alloc_kernel_track`: the entry of an address in the
table of the next level, which is allocated if there is none. -/
def allocOffset (alloc : UInt64 → Paging Int) (shift : Nat) (entry address : UInt64) :
    Paging (Option UInt64) := do
  if (← get).word entry = 0 then
    if (← alloc entry) ≠ 0 then return none
  return some (← tableOffset vaPaOffset shift entry address)

end Tables

/-! ### The tables as a tree -/

/-- The bits that tell a table from an entry that maps memory. -/
def leafMask : UInt64 := pagePresent ||| pageRead ||| pageWrite ||| pageExec

theorem toNat_cell (vaPaOffset : UInt64) {frame index : Nat} (frameBound : frame < 2 ^ 52)
    (indexBound : index < 512) :
    (UInt64.ofNat (frame * 4096 + 8 * index) + vaPaOffset).toNat =
      (frame * 4096 + 8 * index + vaPaOffset.toNat) % 2 ^ 64 := by
  have small : frame * 4096 + 8 * index < 2 ^ 64 := by omega
  rw [UInt64.toNat_add, toNat_ofNat', mod_eq_of_lt small]

/-- The tables of the kernel: frames of 512 words, through which an entry with `V` but without
`R`, `W` and `X` leads. -/
def tableLayout (vaPaOffset : UInt64) : Layout UInt64 UInt64 (Fin (2 ^ 52)) (Fin 512) where
  cell frame index := UInt64.ofNat (frame.val * 4096 + 8 * index.val) + vaPaOffset
  cell_inj {first second one other} same := by
    have values := congrArg UInt64.toNat same
    rw [toNat_cell _ first.isLt one.isLt, toNat_cell _ second.isLt other.isLt] at values
    have firstBound := first.isLt
    have secondBound := second.isLt
    have oneBound := one.isLt
    have otherBound := other.isLt
    have offset := vaPaOffset.toNat_lt
    refine ⟨Fin.ext ?_, Fin.ext ?_⟩ <;> omega
  child entry := if entry &&& leafMask = pagePresent then
      some (Fin.ofNat (2 ^ 52) (ptePfn entry).toNat) else none
  empty := 0
  child_empty := if_neg (by decide)

/-- The indices of an address, from the first level on. -/
def indices (a : UInt64) : List (Fin 512) :=
  [Fin.ofNat 512 (pgdIndex a).toNat, Fin.ofNat 512 (pmdIndex a).toNat,
    Fin.ofNat 512 (pteIndex a).toNat]

/-- The index of a page in the tables of a level. -/
def indexOf (number : Nat) : Fin 512 := Fin.ofNat 512 number

/-- The upper bits of an address are copies of bit 38. -/
def Canonical (a : UInt64) : Prop := a.toNat < 2 ^ 38 ∨ 2 ^ 64 - 2 ^ 38 ≤ a.toNat

instance (a : UInt64) : Decidable (Canonical a) := inferInstanceAs (Decidable (_ ∨ _))

/-- What an entry says about an address of its range, when some indices of the address are left:
the physical address and the protection. -/
def entryOf (a : UInt64) (found : UInt64 × List (Fin 512)) : UInt64 × UInt64 :=
  ((ptePfn found.1 <<< pageShift) + UInt64.ofNat (a.toNat % 2 ^ (12 + 9 * found.2.length)),
    found.1 &&& protMask)

/-- The translation of an address. -/
def translate (vaPaOffset : UInt64) (memory : PageMemory) (root : Fin (2 ^ 52)) (a : UInt64) :
    Option (UInt64 × UInt64) :=
  if Canonical a then
    (find (tableLayout vaPaOffset) memory.word root (indices a)).map (entryOf a)
  else none

/-! ### The arithmetic of entries and indices -/

theorem toNat_shiftRight_ofNat (a : UInt64) {shift : Nat} (bound : shift < 64) :
    (a >>> UInt64.ofNat shift).toNat = a.toNat / 2 ^ shift := by
  rw [UInt64.toNat_shiftRight, toNat_ofNat', mod_eq_of_lt (by omega : shift < 2 ^ 64),
    mod_eq_of_lt bound, shiftRight_eq_div_pow]

theorem toNat_tableIndex {shift : Nat} (bound : shift < 64) (a : UInt64) :
    (tableIndex shift a).toNat = a.toNat / 2 ^ shift % 512 := by
  rw [tableIndex, UInt64.toNat_and, toNat_shiftRight_ofNat a bound]
  exact and_two_pow_sub_one_eq_mod _ 9

theorem toNat_ptePfn (entry : UInt64) : (ptePfn entry).toNat = entry.toNat / 1024 :=
  toNat_shiftRight_ofNat entry (by decide : 10 < 64)

/-- A frame number and the bits below it do not overlap. -/
theorem toNat_entry {pfn bits : UInt64} (fits : pfn.toNat < 2 ^ 54) (small : bits.toNat < 1024) :
    ((pfn <<< pagePfnShift) ||| bits).toNat = pfn.toNat * 1024 + bits.toNat := by
  have shifted : (pfn <<< pagePfnShift).toNat = pfn.toNat <<< 10 := by
    rw [UInt64.toNat_shiftLeft]
    refine mod_eq_of_lt ?_
    rw [show pagePfnShift.toNat % 64 = 10 from rfl]
    omega
  rw [UInt64.toNat_or, shifted, ← shiftLeft_add_eq_or_of_lt small, shiftLeft_eq]

theorem Pgprot.toNat_lt (prot : Pgprot) : prot.bits.toNat < 1024 :=
  UInt64.lt_iff_toNat_lt.mp prot.small

section Entry

variable {pfn : UInt64} (fits : pfn.toNat < 2 ^ 54) (prot : Pgprot)

include fits

theorem ptePfn_pfnPte : ptePfn (pfnPte pfn prot) = pfn := by
  have low := prot.toNat_lt
  refine UInt64.toNat_inj.mp ?_
  rw [toNat_ptePfn, pfnPte, toNat_entry fits low]
  omega

theorem pfnPte_and_protMask : pfnPte pfn prot &&& protMask = prot.bits := by
  have low := prot.toNat_lt
  refine UInt64.toNat_inj.mp ?_
  rw [toNat_and_mask _ (show protMask.toNat = 2 ^ 10 - 1 from rfl), pfnPte, toNat_entry fits low]
  omega

theorem pfnPte_ne_zero : pfnPte pfn prot ≠ 0 := by
  intro zero
  have bits := pfnPte_and_protMask fits prot
  rw [zero, UInt64.zero_and] at bits
  exact prot.present (by rw [← bits, UInt64.zero_and])

end Entry

/-! ### Tables and frames -/

/-- The frame with a number. -/
def frameOf (pfn : UInt64) : Fin (2 ^ 52) := Fin.ofNat (2 ^ 52) pfn.toNat

section Frames

variable {vaPaOffset : UInt64}

theorem toNat_pfnToVirt (pfn : UInt64) :
    (pfnToVirt vaPaOffset pfn).toNat = (pfn.toNat % 2 ^ 52 * 4096 + vaPaOffset.toNat) % 2 ^ 64 := by
  rw [pfnToVirt, UInt64.toNat_add, toNat_shiftLeft_pageShift]
  omega

/-- The entries of a frame are its words. -/
theorem pfnToVirt_add (pfn : UInt64) {index : UInt64} (bound : index.toNat < 512) :
    pfnToVirt vaPaOffset pfn + 8 * index =
      (tableLayout vaPaOffset).cell (frameOf pfn) (Fin.ofNat 512 index.toNat) := by
  refine UInt64.toNat_inj.mp ?_
  have frame : (frameOf pfn).val = pfn.toNat % 2 ^ 52 := rfl
  have entry : (Fin.ofNat 512 index.toNat).val = index.toNat := mod_eq_of_lt bound
  have number := toNat_cell vaPaOffset (frameOf pfn).isLt (Fin.ofNat 512 index.toNat).isLt
  refine Eq.trans ?_ number.symm
  rw [UInt64.toNat_add, UInt64.toNat_mul, toNat_pfnToVirt,
    show (8 : UInt64).toNat = 8 from rfl]
  omega

theorem cell_add_eight (frame : Fin (2 ^ 52)) {index : Nat} (bound : index + 1 < 512) :
    (tableLayout vaPaOffset).cell frame ⟨index, by omega⟩ + 8 =
      (tableLayout vaPaOffset).cell frame ⟨index + 1, bound⟩ := by
  refine UInt64.toNat_inj.mp ?_
  have here := toNat_cell vaPaOffset frame.isLt (by omega : index < 512)
  have there := toNat_cell vaPaOffset frame.isLt bound
  refine Eq.trans ?_ there.symm
  rw [UInt64.toNat_add]
  refine (congrArg (fun value => (value + 8) % 2 ^ 64) here).trans ?_
  omega

theorem toNat_virtToPfn_pfnToVirt (pfn : UInt64) :
    (virtToPfn vaPaOffset (pfnToVirt vaPaOffset pfn)).toNat = (frameOf pfn).val := by
  have frame : (frameOf pfn).val = pfn.toNat % 2 ^ 52 := rfl
  have cancels : pfnToVirt vaPaOffset pfn - vaPaOffset = pfn <<< pageShift := by
    rw [pfnToVirt]
    grind
  have shifted := toNat_pfnDown (pfn <<< pageShift)
  rw [virtToPfn, cancels]
  refine shifted.trans ?_
  rw [toNat_shiftLeft_pageShift]
  omega

/-- The entry that `pmdPopulate` writes leads to the frame of the page. -/
theorem child_pmdPopulate (pfn : UInt64) : (tableLayout vaPaOffset).child
    ((virtToPfn vaPaOffset (pfnToVirt vaPaOffset pfn) <<< pagePfnShift) ||| pageTable) =
      some (frameOf pfn) := by
  have frame : (virtToPfn vaPaOffset (pfnToVirt vaPaOffset pfn)).toNat = (frameOf pfn).val :=
    toNat_virtToPfn_pfnToVirt pfn
  generalize virtToPfn vaPaOffset (pfnToVirt vaPaOffset pfn) = number at frame ⊢
  have entry := toNat_entry (by omega : number.toNat < 2 ^ 54) (by decide : pageTable.toNat < 1024)
  generalize (number <<< pagePfnShift) ||| pageTable = word at entry ⊢
  rw [show pageTable.toNat = 1 from rfl] at entry
  have table : word &&& leafMask = pagePresent := by
    refine UInt64.toNat_inj.mp ?_
    rw [toNat_and_mask _ (show leafMask.toNat = 2 ^ 4 - 1 from rfl),
      show pagePresent.toNat = 1 from rfl]
    omega
  refine (if_pos table).trans (congrArg some (Fin.ext ?_))
  show (ptePfn word).toNat % 2 ^ 52 = _
  rw [toNat_ptePfn]
  omega

theorem clearPage_cell (word : UInt64 → UInt64) (pfn : UInt64) (frame : Fin (2 ^ 52))
    (index : Fin 512) :
    clearPage word (pfnToVirt vaPaOffset pfn) ((tableLayout vaPaOffset).cell frame index) =
      if frame = frameOf pfn then 0 else word ((tableLayout vaPaOffset).cell frame index) := by
  have inside : (tableLayout vaPaOffset).cell frame index - pfnToVirt vaPaOffset pfn < pageSize ↔
      frame = frameOf pfn := by
    have number := toNat_cell vaPaOffset frame.isLt index.isLt
    have same : (frameOf pfn).val = pfn.toNat % 2 ^ 52 := rfl
    rw [lt_iff_toNat_lt, UInt64.toNat_sub, toNat_pfnToVirt, Fin.ext_iff]
    refine (iff_of_eq
      (congrArg (fun value => (2 ^ 64 - _ + value) % 2 ^ 64 < 4096) number)).trans ?_
    omega
  exact if_congr inside rfl rfl

end Frames

/-! ### What table code keeps -/

/-- No table is reached in two ways, and the pages that are handed out next are different from
each other and from all tables. -/
structure Tabled (vaPaOffset : UInt64) (root : Fin (2 ^ 52)) (memory : PageMemory) : Prop where
  proper : Proper (tableLayout vaPaOffset) memory.word root 3
  distinct : (memory.free.map frameOf).Nodup
  unused : ∀ pfn ∈ memory.free, ∀ path, path.length < 3 →
    table (tableLayout vaPaOffset) memory.word root path ≠ some (frameOf pfn)

/-- The memory after a page was taken for a table and an entry was made to refer to it. -/
def linkTable (vaPaOffset : UInt64) (memory : PageMemory) (entry pfn : UInt64)
    (rest : List UInt64) : PageMemory where
  word := update (clearPage memory.word (pfnToVirt vaPaOffset pfn)) entry
    ((virtToPfn vaPaOffset (pfnToVirt vaPaOffset pfn) <<< pagePfnShift) ||| pageTable)
  free := rest

section Tabled

variable {vaPaOffset : UInt64} {root reached : Fin (2 ^ 52)} {memory : PageMemory} {pfn : UInt64}
  {rest : List UInt64} {place : List (Fin 512)} {index : Fin 512}
variable {entry : UInt64}

/-- Code that links a new table to an empty entry, if there is a page. -/
def LinksTable (vaPaOffset : UInt64) (alloc : UInt64 → Paging Int) : Prop :=
  ∀ memory entry, memory.word entry = 0 → alloc entry memory =
    match memory.free with
    | [] => .ok (-enomem, memory)
    | pfn :: rest => .ok (0, linkTable vaPaOffset memory entry pfn rest)

theorem clearPage_of_zero {word : UInt64 → UInt64} (zero : word entry = 0)
    (page : UInt64) : clearPage word page entry = 0 := by
  rw [clearPage, zero, ite_self]

theorem linksTable_pmdAllocTable (vaPaOffset : UInt64) :
    LinksTable vaPaOffset (pmdAllocTable vaPaOffset) := by
  intro memory entry zero
  rw [pmdAllocTable, allocZeroedPage, bind_assoc, get_bind]
  cases free : memory.free with
  | nil => rfl
  | cons pfn rest =>
    rw [bind_assoc, modify_bind, pure_bind]
    dsimp only
    rw [get_bind]
    have blank : clearPage memory.word (pfnToVirt vaPaOffset pfn) entry &&& pagePresent = 0 := by
      rw [clearPage_of_zero zero, UInt64.zero_and]
    rw [if_pos blank]
    rfl

theorem LinksTable.ensures {alloc : UInt64 → Paging Int} (linking : LinksTable vaPaOffset alloc)
    (zero : memory.word entry = 0) :
    Ensures (alloc entry) memory fun err after => err = 0 → ∃ pfn rest,
      memory.free = pfn :: rest ∧ after = linkTable vaPaOffset memory entry pfn rest := by
  intro err after ran success
  rw [linking memory entry zero] at ran
  cases free : memory.free with
  | nil =>
    rw [free] at ran
    cases ran
    cases success
  | cons pfn rest =>
    rw [free] at ran
    cases ran
    exact ⟨pfn, rest, rfl, rfl⟩

/-- The entries of the table that an entry leads to. -/
theorem pageVaddr_add {next : Fin (2 ^ 52)}
    (child : (tableLayout vaPaOffset).child entry = some next) {shift : Nat} (bound : shift < 64)
    (address : UInt64) : pageVaddr vaPaOffset entry + 8 * tableIndex shift address =
      (tableLayout vaPaOffset).cell next (Fin.ofNat 512 (tableIndex shift address).toNat) := by
  have inside : (tableIndex shift address).toNat < 512 := by
    rw [toNat_tableIndex bound]
    exact mod_lt _ (by decide)
  have leads : frameOf (ptePfn entry) = next :=
    Option.some.inj ((Option.ite_none_right_eq_some.mp child).2 ▸ rfl)
  rw [← leads]
  exact pfnToVirt_add (ptePfn entry) inside

variable (tabled : Tabled vaPaOffset root memory)

include tabled

/-- The tables are in order, no translation has changed and no table is lost. -/
structure SameMap (vaPaOffset : UInt64) (root : Fin (2 ^ 52)) (memory after : PageMemory) :
    Prop where
  tabled : Tabled vaPaOffset root after
  translates : translate vaPaOffset after root = translate vaPaOffset memory root
  keeps : ∀ path reached, path.length < 3 →
    table (tableLayout vaPaOffset) memory.word root path = some reached →
    table (tableLayout vaPaOffset) after.word root path = some reached

theorem SameMap.refl : SameMap vaPaOffset root memory memory :=
  ⟨tabled, rfl, fun _ _ _ leads => leads⟩

variable (found : table (tableLayout vaPaOffset) memory.word root place = some reached)

include found

theorem Tabled.links (first : memory.free = pfn :: rest) (short : place.length < 3)
    (blank : memory.word ((tableLayout vaPaOffset).cell reached index) = 0) :
    Links (tableLayout vaPaOffset) memory.word (linkTable vaPaOffset memory
      ((tableLayout vaPaOffset).cell reached index) pfn rest).word reached (frameOf pfn) index := by
  have fresh : reached ≠ frameOf pfn := by
    rintro rfl
    exact tabled.unused pfn (first ▸ List.mem_cons_self) place short found
  refine ⟨blank, ?_, fun other => ?_, fun next other outside elsewhere => ?_⟩
  · dsimp only [linkTable]
    rw [update_self]
    exact child_pmdPopulate pfn
  · dsimp only [linkTable]
    rw [update_of_ne, clearPage_cell, if_pos rfl]
    · rfl
    · intro same
      exact fresh ((tableLayout vaPaOffset).cell_inj same).1.symm
  · dsimp only [linkTable]
    rw [update_of_ne, clearPage_cell, if_neg outside]
    intro same
    obtain ⟨rfl, rfl⟩ := (tableLayout vaPaOffset).cell_inj same
    exact elsewhere.elim (absurd rfl) (absurd rfl)

/-- Linking a new table changes no translation. -/
theorem Tabled.link (first : memory.free = pfn :: rest) (short : place.length + 1 < 3)
    (blank : memory.word ((tableLayout vaPaOffset).cell reached index) = 0) :
    let after := linkTable vaPaOffset memory ((tableLayout vaPaOffset).cell reached index) pfn rest
    SameMap vaPaOffset root memory after ∧
      (tableLayout vaPaOffset).child (after.word ((tableLayout vaPaOffset).cell reached index)) =
        some (frameOf pfn) := by
  intro after
  have links : Links (tableLayout vaPaOffset) memory.word after.word reached (frameOf pfn) index :=
    tabled.links found first (by omega) blank
  have unused := tabled.unused pfn (first ▸ List.mem_cons_self)
  have distinct := tabled.distinct
  rw [first, List.map_cons, List.nodup_cons] at distinct
  refine ⟨⟨⟨links.keepsProper tabled.proper found short unused, distinct.2, ?_⟩, ?_, ?_⟩,
    links.refers⟩
  · intro other member path bound leads
    rcases links.table_cases tabled.proper found short unused bound leads with ⟨_, same⟩ | before
    · exact distinct.1 (same ▸ List.mem_map_of_mem member)
    · exact tabled.unused other (first ▸ List.mem_cons_of_mem _ member) path bound before
  · funext a
    rw [translate, translate, links.find tabled.proper found short unused rfl]
  · exact fun path next bound leads =>
      links.table_of_table tabled.proper found short unused bound leads

/-- A write to an entry of the last level keeps the tables. -/
theorem Tabled.setWord (last : place.length + 1 = 3) (value : UInt64) :
    Tabled vaPaOffset root { memory with
      word := update memory.word ((tableLayout vaPaOffset).cell reached index) value } where
  proper := tabled.proper.write found value last
  distinct := tabled.distinct
  unused pfn member path bound leads := by
    rw [tabled.proper.table_write found value last bound] at leads
    exact tabled.unused pfn member path bound leads

/-- A pointer was returned, to an entry of the table at the end of a path, and no translation has
changed. -/
def Opens (vaPaOffset : UInt64) (root : Fin (2 ^ 52)) (memory : PageMemory) (path : List (Fin 512))
    (index : Fin 512) (result : Option UInt64) (after : PageMemory) : Prop :=
  ∀ pointer, result = some pointer → SameMap vaPaOffset root memory after ∧ ∃ reached,
    table (tableLayout vaPaOffset) after.word root path = some reached ∧
      pointer = (tableLayout vaPaOffset).cell reached index

/-- Opening the table below an entry: it is there or is linked, so no translation changes. -/
theorem Tabled.allocOffset {alloc : UInt64 → Paging Int} (linking : LinksTable vaPaOffset alloc)
    (short : place.length + 1 < 3) {second : Fin 512} {others : List (Fin 512)}
    (nothing : find (tableLayout vaPaOffset) memory.word root (place ++ index :: second :: others) =
      none) {shift : Nat} (bound : shift < 64) (address : UInt64) :
    Ensures (allocOffset vaPaOffset alloc shift
      ((tableLayout vaPaOffset).cell reached index) address)
      memory (Opens vaPaOffset root memory (place ++ [index])
        (Fin.ofNat 512 (tableIndex shift address).toNat)) := by
  -- once the entry leads to a table, the rest is a read of the entry
  have opened : ∀ after next, SameMap vaPaOffset root memory after →
      (tableLayout vaPaOffset).child (after.word ((tableLayout vaPaOffset).cell reached index)) =
        some next →
      Ensures (do
        let pointer ← tableOffset vaPaOffset shift
          ((tableLayout vaPaOffset).cell reached index) address
        return some pointer) after (Opens vaPaOffset root memory (place ++ [index])
          (Fin.ofNat 512 (tableIndex shift address).toNat)) := by
    intro after next same child
    rw [tableOffset]
    refine ensures_get ?_
    refine ensures_pure fun pointer given => ⟨same, next, ?_, ?_⟩
    · rw [table_append, same.keeps place reached (by omega) found, Option.bind_some, table, child]
      rfl
    · rw [← Option.some.inj given]
      exact pageVaddr_add child bound address
  rw [Xlinux.allocOffset]
  refine ensures_get ?_
  split
  · next zero =>
    refine (linking.ensures zero).bind fun err after linked => ?_
    split
    · exact ensures_pure fun _ given => by cases given
    · next success =>
      obtain ⟨_, rest, first, rfl⟩ := linked (not_not.mp success)
      obtain ⟨same, child⟩ := tabled.link found first short zero
      exact opened _ _ same child
  · next filled =>
    rw [find_append found] at nothing
    obtain ⟨next, child⟩ := child_of_find_eq_none nothing filled
    exact opened memory next (.refl tabled) child

end Tabled

end Xlinux
