/-
This file models `ioremap_page_range` of `ioremap/ioremap.c` and proves what it
maps: on success every address of the range translates to its physical address,
and all other translations are as before, however many tables the range touches.
-/

import Xlinux.Paging.Tables

namespace Xlinux

open PageTree Hoare UInt64 Nat

section Code

variable (vaPaOffset : UInt64)

/-- `pmd_alloc_track`, without the mask of modified levels, which nothing reads. -/
def pmdAllocTrack (pgd address : UInt64) : Paging (Option UInt64) :=
  allocOffset vaPaOffset (pmdAllocTable vaPaOffset) pmdShift pgd address

/-- `__pte_alloc_kernel`. -/
def pteAllocKernel (pmd : UInt64) : Paging Int := do
  match ← allocZeroedPage vaPaOffset with
  | none => return -enomem
  | some new =>
    if (← get).word pmd = 0 then pmdPopulate vaPaOffset pmd new
    else modify fun memory => { memory with free := virtToPfn vaPaOffset new :: memory.free }
    return 0

/-- `pte_alloc_kernel_track`. -/
def pteAllocKernelTrack (pmd address : UInt64) : Paging (Option UInt64) :=
  allocOffset vaPaOffset (pteAllocKernel vaPaOffset) 12 pmd address

/-- The loop of `ioremap_pte_range`. -/
def ioremapPteLoop (prot : Pgprot) (stop : UInt64) : Nat → UInt64 → UInt64 → UInt64 → Paging Unit
  | 0, _, _, _ => throw .endless
  | turns + 1, pte, pfn, addr => do
    if (← get).word pte ≠ 0 then throw .bug
    setWord pte (pfnPte pfn prot)
    let addr := addr + pageSize
    if addr ≠ stop then ioremapPteLoop prot stop turns (pte + 8) (pfn + 1) addr

/-- `ioremap_pte_range`. -/
def ioremapPteRange (pmd addr stop physAddr : UInt64) (prot : Pgprot) : Paging Int := do
  let pfn := physAddr >>> pageShift
  match ← pteAllocKernelTrack vaPaOffset pmd addr with
  | none => return -enomem
  | some pte =>
    ioremapPteLoop prot stop maxTurns pte pfn addr
    return 0

/-- The loop of `ioremap_pmd_range`. -/
def ioremapPmdLoop (prot : Pgprot) (stop : UInt64) : Nat → UInt64 → UInt64 → UInt64 → Paging Int
  | 0, _, _, _ => throw .endless
  | turns + 1, pmd, addr, physAddr => do
    let next := pmdAddrEnd addr stop
    if (← ioremapPteRange vaPaOffset pmd addr next physAddr prot) ≠ 0 then return -enomem
    if next ≠ stop then ioremapPmdLoop prot stop turns (pmd + 8) next (physAddr + (next - addr))
    else return 0

/-- `ioremap_pmd_range`. -/
def ioremapPmdRange (pgd addr stop physAddr : UInt64) (prot : Pgprot) : Paging Int := do
  match ← pmdAllocTrack vaPaOffset pgd addr with
  | none => return -enomem
  | some pmd => ioremapPmdLoop vaPaOffset prot stop maxTurns pmd addr physAddr

/-- The loop of `ioremap_page_range`. -/
def ioremapPageLoop (prot : Pgprot) (stop : UInt64) : Nat → UInt64 → UInt64 → UInt64 → Paging Int
  | 0, _, _, _ => throw .endless
  | turns + 1, pgd, addr, physAddr => do
    let next := pgdAddrEnd addr stop
    let err ← ioremapPmdRange vaPaOffset pgd addr next physAddr prot
    if err ≠ 0 then return err
    if next ≠ stop then ioremapPageLoop prot stop turns (pgd + 8) next (physAddr + (next - addr))
    else return err

/-- `ioremap_page_range`, with the frame of `init_mm.pgd`. -/
def ioremapPageRange (root addr stop physAddr : UInt64) (prot : Pgprot) : Paging Int := do
  if addr ≥ stop then throw .bug
  ioremapPageLoop vaPaOffset prot stop maxTurns
    (pfnToVirt vaPaOffset root + 8 * pgdIndex addr) addr physAddr

end Code

/-! ### Addresses and their indices -/

theorem indices_eq (a : UInt64) : indices a =
    [Fin.ofNat 512 (a.toNat / 4096 / 512 / 512), Fin.ofNat 512 (a.toNat / 4096 / 512),
      Fin.ofNat 512 (a.toNat / 4096)] := by
  have one := toNat_tableIndex (by decide : pgdirShift < 64) a
  have two := toNat_tableIndex (by decide : pmdShift < 64) a
  have three := toNat_tableIndex (by decide : 12 < 64) a
  simp only [indices, List.cons.injEq, and_true, Fin.ext_iff, Fin.val_ofNat, pgdIndex, pmdIndex,
    pteIndex, one, two, three, mod_mod, Nat.div_div_eq_div_mul]
  exact ⟨rfl, rfl, rfl⟩

/-- Two addresses that can be translated have the same indices when they are in the same page. -/
theorem indices_eq_iff {a b : UInt64} (first : Canonical a) (second : Canonical b) :
    indices a = indices b ↔ a.toNat / 4096 = b.toNat / 4096 := by
  have bounds : ∀ {n : Nat}, n < 2 ^ 64 → n < 2 ^ 38 ∨ 2 ^ 64 - 2 ^ 38 ≤ n →
      n / 4096 < 2 ^ 26 ∨ 2 ^ 52 - 2 ^ 26 ≤ n / 4096 ∧ n / 4096 < 2 ^ 52 := by omega
  have one := bounds a.toNat_lt first
  have two := bounds b.toNat_lt second
  rw [indices_eq, indices_eq]
  simp only [List.cons.injEq, and_true, Fin.ext_iff, Fin.val_ofNat]
  omega

theorem canonical_of_high {a : UInt64} (high : 2 ^ 64 - 2 ^ 38 ≤ a.toNat) : Canonical a := .inr high

/-- The next boundary wraps to `0` at the end of the address space. -/
theorem toNat_boundary {shift : Nat} (bound : shift < 64) (addr : UInt64) :
    (roundDown (addr + oneShl shift) (oneShl shift)).toNat =
      (addr.toNat / 2 ^ shift + 1) * 2 ^ shift % 2 ^ 64 := by
  have size := toNat_oneShl bound
  have split :
      2 ^ 64 = 2 ^ shift * 2 ^ (64 - shift) := by rw [← pow_add, Nat.add_sub_cancel' bound.le]
  rw [toNat_roundDown size, UInt64.toNat_add, size, ← Nat.div_mul_self_eq_mod_sub_self, split,
    Nat.mod_mul_right_div_self, Nat.add_div_right _ (Nat.two_pow_pos shift),
    mul_comm (2 ^ shift) (2 ^ (64 - shift)), Nat.mul_mod_mul_right]

/-- The end of a step through a level: the next boundary or the end of the range. -/
theorem toNat_addrEnd {shift : Nat} (bound : shift < 64) {addr stop : UInt64}
    (less : addr.toNat < stop.toNat) : (addrEnd shift addr stop).toNat =
      min ((addr.toNat / 2 ^ shift + 1) * 2 ^ shift) stop.toNat := by
  have boundary := toNat_boundary bound addr
  have top := stop.toNat_lt
  have above : addr.toNat < (addr.toNat / 2 ^ shift + 1) * 2 ^ shift := by
    rw [mul_comm]
    exact lt_mul_div_succ addr.toNat (Nat.two_pow_pos shift)
  have fits : (addr.toNat / 2 ^ shift + 1) * 2 ^ shift ≤ 2 ^ 64 := by
    rw [← Nat.sub_add_cancel bound.le, pow_add]
    refine mul_le_mul_right _ (Nat.div_lt_of_lt_mul ?_)
    rw [mul_comm, ← pow_add, Nat.sub_add_cancel bound.le]
    exact addr.toNat_lt
  rw [addrEnd]
  change (if roundDown (addr + oneShl shift) (oneShl shift) - 1 < stop - 1 then
    roundDown (addr + oneShl shift) (oneShl shift) else stop).toNat = _
  generalize roundDown (addr + oneShl shift) (oneShl shift) = next at boundary ⊢
  generalize (addr.toNat / 2 ^ shift + 1) * 2 ^ shift = number at boundary above fits ⊢
  have test : next - 1 < stop - 1 ↔ number < stop.toNat := by
    rw [lt_iff_toNat_lt, UInt64.toNat_sub, UInt64.toNat_sub,
      UInt64.toNat_one]
    omega
  simp only [test]
  split_ifs <;> omega

/-! ### What is mapped -/

/-- The path to the table of the last level that has the entry of an address. -/
def tablePath (a : UInt64) : List (Fin 512) :=
  [indexOf (a.toNat / 4096 / 512 / 512), indexOf (a.toNat / 4096 / 512)]

/-- The addresses of a range translate to consecutive physical addresses, and the others as
before. -/
structure Remapped (vaPaOffset : UInt64) (root : Fin (2 ^ 52)) (prot : Pgprot)
    (addr stop physAddr : UInt64) (memory after : PageMemory) : Prop where
  tabled : Tabled vaPaOffset root after
  translates : ∀ va, translate vaPaOffset after root va =
    if addr ≤ va ∧ va < stop then some (physAddr + (va - addr), prot.bits)
    else translate vaPaOffset memory root va
  keeps : ∀ path reached, path.length < 3 →
    table (tableLayout vaPaOffset) memory.word root path = some reached →
    table (tableLayout vaPaOffset) after.word root path = some reached

section Remapped

variable {vaPaOffset : UInt64} {root reached : Fin (2 ^ 52)} {prot : Pgprot}
  {addr next stop physAddr : UInt64} {memory between after : PageMemory}

theorem SameMap.remapped (same : SameMap vaPaOffset root memory between)
    (then' : Remapped vaPaOffset root prot addr stop physAddr between after) :
    Remapped vaPaOffset root prot addr stop physAddr memory after where
  tabled := then'.tabled
  translates va := by rw [then'.translates, same.translates]
  keeps path reached bound leads :=
    then'.keeps path reached bound (same.keeps path reached bound leads)

/-- Two ranges one after the other. -/
theorem Remapped.trans (low : addr ≤ next) (high : next ≤ stop)
    (first : Remapped vaPaOffset root prot addr next physAddr memory between)
    (second : Remapped vaPaOffset root prot next stop (physAddr + (next - addr)) between after) :
    Remapped vaPaOffset root prot addr stop physAddr memory after where
  tabled := second.tabled
  translates va := by
    rw [second.translates, first.translates]
    have offset : physAddr + (next - addr) + (va - next) = physAddr + (va - addr) := by grind
    rw [offset]
    simp only [le_iff_toNat_le, lt_iff_toNat_lt] at low high ⊢
    split_ifs <;> first | rfl | omega
  keeps path reached bound leads :=
    second.keeps path reached bound (first.keeps path reached bound leads)

theorem Remapped.none (remapped : Remapped vaPaOffset root prot addr next physAddr memory after)
    {va : UInt64} (above : next ≤ va) (nothing : translate vaPaOffset memory root va = none) :
    translate vaPaOffset after root va = none := by
  rw [remapped.translates, if_neg fun inside => UInt64.not_lt.mpr above inside.2, nothing]

/-- One page. -/
theorem Tabled.remapped (tabled : Tabled vaPaOffset root memory)
    (found : table (tableLayout vaPaOffset) memory.word root (tablePath addr) = some reached)
    (high : 2 ^ 64 - 2 ^ 38 ≤ addr.toNat) (aligned : 4096 ∣ addr.toNat)
    (ends : stop.toNat = addr.toNat + 4096) {pfn : UInt64} (fits : pfn.toNat < 2 ^ 54)
    (frame : pfn <<< pageShift = physAddr) :
    Remapped vaPaOffset root prot addr stop physAddr memory { memory with
      word := Function.update memory.word
        ((tableLayout vaPaOffset).cell reached (indexOf (addr.toNat / 4096)))
        (pfnPte pfn prot) } where
  tabled := tabled.setWord found rfl _
  keeps path next bound leads := (tabled.proper.table_write found _ rfl bound).trans leads
  translates va := by
    have inside : addr ≤ va ∧ va < stop ↔ va.toNat / 4096 = addr.toNat / 4096 := by
      rw [le_iff_toNat_le, lt_iff_toNat_lt]
      omega
    rw [translate, translate, tabled.proper.find_write found _ rfl rfl,
      ← show indices addr = tablePath addr ++ [indexOf (addr.toNat / 4096)] from indices_eq addr]
    by_cases canonical : Canonical va
    · rw [if_pos canonical]
      simp only [indices_eq_iff canonical (canonical_of_high high), inside]
      split
      · next same =>
        have whole : (tableLayout vaPaOffset).empty = 0 := rfl
        rw [ended, whole, if_neg (pfnPte_ne_zero fits prot), Option.map_some, entryOf,
          ptePfn_pfnPte fits, pfnPte_and_protMask fits, frame]
        have offset : ofNat (va.toNat % 2 ^ (12 + 9 * 0)) = va - addr := by
          refine UInt64.toNat_inj.mp ?_
          rw [toNat_ofNat', toNat_sub_of_toNat_le (by omega)]
          omega
        exact congrArg (fun value => some (physAddr + value, prot.bits)) offset
      · rfl
    · have outside : ¬ (addr ≤ va ∧ va < stop) := by
        rintro ⟨above, _⟩
        exact canonical (canonical_of_high (high.trans (le_iff_toNat_le.mp above)))
      rw [if_neg canonical, if_neg canonical, if_neg outside]

end Remapped

/-! ### The loops -/

section Loops

variable {vaPaOffset : UInt64} {root reached : Fin (2 ^ 52)} {prot : Pgprot}
  {addr stop physAddr : UInt64} {memory : PageMemory}
variable {shift turns : Nat}

/-- A range of whole pages in the upper half of the address space, below the next boundary of a
level. -/
structure PageRange (shift : Nat) (addr stop : UInt64) : Prop where
  high : 2 ^ 64 - 2 ^ 38 ≤ addr.toNat
  aligned : 4096 ∣ addr.toNat
  ends : 4096 ∣ stop.toNat
  less : addr.toNat < stop.toNat
  inside : stop.toNat ≤ (addr.toNat / 2 ^ shift + 1) * 2 ^ shift

theorem indexOf_add_one {number : Nat} (bound : number % 512 + 1 < 512) (frame : Fin (2 ^ 52)) :
    (tableLayout vaPaOffset).cell frame (indexOf number) + 8 =
      (tableLayout vaPaOffset).cell frame (indexOf (number + 1)) := by
  have next : indexOf (number + 1) = ⟨number % 512 + 1, bound⟩ := by
    refine Fin.ext ?_
    show (number + 1) % 512 = number % 512 + 1
    omega
  rw [next]
  exact cell_add_eight frame bound

theorem PageRange.toNat_add (range : PageRange shift addr stop) :
    (addr + pageSize).toNat = addr.toNat + 4096 := by
  have top := stop.toNat_lt
  obtain ⟨_, _, _, _, _⟩ := range
  exact toNat_add_of_lt (by rw [toNat_pageSize]; omega)

/-- The rest of a range after its first page. -/
theorem PageRange.rest (range : PageRange pmdShift addr stop) (more : addr + pageSize ≠ stop) :
    PageRange pmdShift (addr + pageSize) stop ∧ addr.toNat / 4096 % 512 + 1 < 512 ∧
      tablePath (addr + pageSize) = tablePath addr := by
  have number := range.toNat_add
  have different : addr.toNat + 4096 ≠ stop.toNat :=
    fun same => more (UInt64.toNat_inj.mp (number.trans same))
  obtain ⟨_, _, ends, _, inside⟩ := range
  have shift : pmdShift = 21 := rfl
  rw [shift] at inside ⊢
  have block : (addr.toNat + 4096) / 2 ^ 21 = addr.toNat / 2 ^ 21 := by omega
  have same : (addr.toNat + 4096) / 4096 / 512 = addr.toNat / 4096 / 512 := by omega
  refine ⟨⟨by omega, by omega, ends, by omega, by rwa [number, block]⟩, by omega, ?_⟩
  rw [tablePath, tablePath, number, same]

theorem Tabled.ioremapPteLoop {pfn : UInt64} (tabled : Tabled vaPaOffset root memory)
    (found : table (tableLayout vaPaOffset) memory.word root (tablePath addr) = some reached)
    (range : PageRange pmdShift addr stop)
    (fits : pfn.toNat + (stop.toNat - addr.toNat) / 4096 ≤ 2 ^ 54)
    (frame : pfn <<< pageShift = physAddr) :
    Ensures (ioremapPteLoop prot stop turns
      ((tableLayout vaPaOffset).cell reached (indexOf (addr.toNat / 4096))) pfn addr) memory
      fun _ after => Remapped vaPaOffset root prot addr stop physAddr memory after := by
  induction turns generalizing memory addr pfn physAddr with
  | zero => exact ensures_throw
  | succ turns ih =>
    have number := range.toNat_add
    have less := range.less
    have aligned := range.aligned
    have ends := range.ends
    have small : pfn.toNat < 2 ^ 54 := by omega
    have page : Remapped _ _ prot _ _ _ _ _ :=
      tabled.remapped found range.high range.aligned number small frame
    rw [ioremapPteLoop]
    refine ensures_get ?_
    split
    · exact ensures_throw
    refine ensures_modify ?_
    dsimp only
    split
    · next more =>
      obtain ⟨range', bound, samePath⟩ := range.rest more
      have less' := range'.less
      rw [indexOf_add_one bound]
      have pointer : addr.toNat / 4096 + 1 = (addr + pageSize).toNat / 4096 := by
        omega
      have counted : (pfn + 1).toNat = pfn.toNat + 1 := toNat_add_of_lt (by
        rw [UInt64.toNat_one]
        omega)
      rw [pointer]
      refine (ih page.tabled ?_ range' ?_ ?_).mono fun _ after remapped =>
        page.trans ?_ ?_ remapped
      · rw [samePath]
        exact page.keeps _ _ (lt_succ_self 2) found
      · omega
      · have step : addr + pageSize - addr = pageSize := by grind
        rw [← frame, step]
        refine UInt64.toNat_inj.mp ?_
        rw [UInt64.toNat_add, toNat_shiftLeft_pageShift, toNat_shiftLeft_pageShift,
          UInt64.toNat_add, UInt64.toNat_one, toNat_pageSize]
        omega
      · rw [le_iff_toNat_le]
        omega
      · exact le_iff_toNat_le.mpr less'.le
    · next last =>
      rw [not_not.mp last] at page
      exact ensures_pure page

theorem linksTable_pteAllocKernel (vaPaOffset : UInt64) :
    LinksTable vaPaOffset (pteAllocKernel vaPaOffset) := by
  intro memory entry zero
  rw [pteAllocKernel, allocZeroedPage, bind_assoc, get_bind]
  cases free : memory.free with
  | nil => rfl
  | cons pfn rest =>
    rw [bind_assoc, modify_bind, pure_bind]
    dsimp only
    rw [get_bind, if_pos (clearPage_of_zero zero _)]
    rfl

/-- An address without translation finds no entry. -/
theorem find_of_translate_eq_none {va : UInt64} (canonical : Canonical va)
    (nothing : translate vaPaOffset memory root va = none) :
    find (tableLayout vaPaOffset) memory.word root (indices va) = none := by
  rw [translate, if_pos canonical, Option.map_eq_none_iff] at nothing
  exact nothing

theorem ofNat_tableIndex (bound : shift < 64) (a : UInt64) :
    Fin.ofNat 512 (tableIndex shift a).toNat = indexOf (a.toNat / 2 ^ shift) := by
  refine Fin.ext ?_
  rw [toNat_tableIndex bound]
  exact mod_mod _ _

/-- One step through a level: the part below the next boundary, and the rest if there is one. -/
theorem PageRange.addrEnd (low : 12 ≤ shift) (bound : shift < 64)
    (range : PageRange (shift + 9) addr stop) :
    PageRange shift addr (addrEnd shift addr stop) ∧ addrEnd shift addr stop ≤ stop ∧
      (addrEnd shift addr stop ≠ stop → PageRange (shift + 9) (addrEnd shift addr stop) stop ∧
        addr.toNat / 2 ^ shift % 512 + 1 < 512 ∧
        (addrEnd shift addr stop).toNat / 2 ^ shift = addr.toNat / 2 ^ shift + 1) := by
  obtain ⟨high, aligned, ends, less, inside⟩ := range
  have number := toNat_addrEnd bound less
  have positive := Nat.two_pow_pos shift
  have pages : 4096 ∣ 2 ^ shift := pow_dvd_pow 2 low
  have above : addr.toNat < (addr.toNat / 2 ^ shift + 1) * 2 ^ shift := by
    rw [mul_comm]
    exact lt_mul_div_succ addr.toNat positive
  have whole : 4096 ∣ (addr.toNat / 2 ^ shift + 1) * 2 ^ shift := pages.mul_left _
  have widths : 2 ^ (shift + 9) = 2 ^ shift * 512 := pow_add 2 shift 9
  generalize Xlinux.addrEnd shift addr stop = next at number ⊢
  refine ⟨⟨high, aligned, ?_, ?_, ?_⟩, ?_, fun more => ?_⟩
  · rw [number]
    rcases min_choice ((addr.toNat / 2 ^ shift + 1) * 2 ^ shift) stop.toNat with same | same <;>
      rw [same] <;> assumption
  · omega
  · omega
  · rw [le_iff_toNat_le]
    omega
  · have different : next.toNat ≠ stop.toNat := fun same => more (UInt64.toNat_inj.mp same)
    have reaches : next.toNat = (addr.toNat / 2 ^ shift + 1) * 2 ^ shift := by omega
    have quotient : next.toNat / 2 ^ shift = addr.toNat / 2 ^ shift + 1 := by
      rw [reaches, Nat.mul_div_cancel _ positive]
    rw [widths, ← Nat.div_div_eq_div_mul] at inside
    have turn : addr.toNat / 2 ^ shift + 1 < (addr.toNat / 2 ^ shift / 512 + 1) * 512 := by
      refine Nat.lt_of_mul_lt_mul_right (a := 2 ^ shift) ?_
      calc (addr.toNat / 2 ^ shift + 1) * 2 ^ shift < stop.toNat := by omega
        _ ≤ (addr.toNat / 2 ^ shift / 512 + 1) * (2 ^ shift * 512) := inside
        _ = (addr.toNat / 2 ^ shift / 512 + 1) * 512 * 2 ^ shift := by ring
    have outer : next.toNat / 2 ^ (shift + 9) = addr.toNat / 2 ^ shift / 512 := by
      rw [widths, ← Nat.div_div_eq_div_mul]
      omega
    refine ⟨⟨by omega, reaches ▸ whole, ends, by omega, ?_⟩, by omega, quotient⟩
    rw [outer, widths]
    exact inside

theorem physAligned_add {next : UInt64} (aligned : 4096 ∣ physAddr.toNat)
    (first : 4096 ∣ addr.toNat) (second : 4096 ∣ next.toNat) :
    4096 ∣ (physAddr + (next - addr)).toNat := by
  rw [UInt64.toNat_add, UInt64.toNat_sub]
  omega

variable (tabled : Tabled vaPaOffset root memory)

include tabled

theorem Tabled.ioremapPteRange (found : table (tableLayout vaPaOffset) memory.word root
      [indexOf (addr.toNat / 4096 / 512 / 512)] = some reached)
    (range : PageRange pmdShift addr stop) (physAligned : 4096 ∣ physAddr.toNat)
    (nothing : translate vaPaOffset memory root addr = none) :
    Ensures (ioremapPteRange vaPaOffset
      ((tableLayout vaPaOffset).cell reached (indexOf (addr.toNat / 4096 / 512)))
      addr stop physAddr prot) memory fun err after =>
        err = 0 → Remapped vaPaOffset root prot addr stop physAddr memory after := by
  have unmapped := find_of_translate_eq_none (canonical_of_high range.high) nothing
  rw [indices_eq] at unmapped
  rw [Xlinux.ioremapPteRange]
  refine (tabled.allocOffset found (linksTable_pteAllocKernel vaPaOffset)
    (lt_succ_self 2) unmapped (by decide) addr).bind fun result after opens => ?_
  cases result with
  | none => exact ensures_pure nofun
  | some pte =>
    obtain ⟨same, _, leads, rfl⟩ := opens pte rfl
    have number := toNat_pageIndex physAddr
    have top := physAddr.toNat_lt
    have limit := stop.toNat_lt
    have whole : (physAddr >>> pageShift) <<< pageShift = physAddr := by
      refine UInt64.toNat_inj.mp ?_
      rw [toNat_shiftLeft_pageShift]
      omega
    rw [ofNat_tableIndex (by decide)]
    refine (same.tabled.ioremapPteLoop leads range ?_ whole).bind
      fun _ final remapped => ensures_pure fun _ => same.remapped remapped
    omega

/-- The pages of a range have no translation. -/
def Unmapped (vaPaOffset : UInt64) (root : Fin (2 ^ 52)) (memory : PageMemory)
    (addr stop : UInt64) : Prop :=
  ∀ va, addr ≤ va → va < stop → translate vaPaOffset memory root va = none

theorem Tabled.ioremapPmdLoop (found : table (tableLayout vaPaOffset) memory.word root
      [indexOf (addr.toNat / 4096 / 512 / 512)] = some reached)
    (range : PageRange pgdirShift addr stop) (physAligned : 4096 ∣ physAddr.toNat)
    (unmapped : Unmapped vaPaOffset root memory addr stop) :
    Ensures (ioremapPmdLoop vaPaOffset prot stop turns
      ((tableLayout vaPaOffset).cell reached (indexOf (addr.toNat / 4096 / 512))) addr physAddr)
      memory fun err after =>
        err = 0 → Remapped vaPaOffset root prot addr stop physAddr memory after := by
  induction turns generalizing memory addr physAddr with
  | zero => exact ensures_throw
  | succ turns ih =>
    obtain ⟨part, within, rest⟩ := PageRange.addrEnd (by decide) (by decide : pmdShift < 64) range
    rw [ioremapPmdLoop, pmdAddrEnd]
    generalize addrEnd pmdShift addr stop = next at part within rest ⊢
    have start : addr ≤ next := le_iff_toNat_le.mpr part.less.le
    refine (tabled.ioremapPteRange found part physAligned ?_).bind fun err between first => ?_
    · exact unmapped addr (UInt64.le_refl _) (lt_iff_toNat_lt.mpr range.less)
    split
    · exact ensures_pure nofun
    next success =>
    have first := first (not_not.mp success)
    split
    · next more =>
      obtain ⟨range', bound, quotient⟩ := rest more
      have level : ∀ number, number / 4096 / 512 = number / 2 ^ pmdShift :=
        fun number => Nat.div_div_eq_div_mul number 4096 512
      rw [level] at found ⊢
      have directory : next.toNat / 2 ^ pmdShift / 512 = addr.toNat / 2 ^ pmdShift / 512 := by omega
      rw [indexOf_add_one bound, ← quotient, ← level]
      refine (ih first.tabled ?_ range' ?_ ?_).mono fun _ after second isZero =>
        first.trans start within (second isZero)
      · rw [level, directory]
        exact first.keeps _ _ (by simp) found
      · exact physAligned_add physAligned range.aligned part.ends
      · intro va above below
        exact first.none above (unmapped va (UInt64.le_trans start above) below)
    · next last =>
      rw [not_not.mp last] at first
      exact ensures_pure fun _ => first

theorem Tabled.ioremapPmdRange (range : PageRange pgdirShift addr stop)
    (physAligned : 4096 ∣ physAddr.toNat) (unmapped : Unmapped vaPaOffset root memory addr stop) :
    Ensures (ioremapPmdRange vaPaOffset
      ((tableLayout vaPaOffset).cell root (indexOf (addr.toNat / 4096 / 512 / 512)))
      addr stop physAddr prot) memory fun err after =>
        err = 0 → Remapped vaPaOffset root prot addr stop physAddr memory after := by
  have nothing := unmapped addr (UInt64.le_refl _) (lt_iff_toNat_lt.mpr range.less)
  have finds := find_of_translate_eq_none (canonical_of_high range.high) nothing
  rw [indices_eq] at finds
  rw [Xlinux.ioremapPmdRange]
  have start : table (tableLayout vaPaOffset) memory.word root [] = some root := rfl
  refine (tabled.allocOffset start (linksTable_pmdAllocTable vaPaOffset) (by decide) finds
    (by decide) addr).bind fun result after opens => ?_
  cases result with
  | none => exact ensures_pure nofun
  | some pmd =>
    obtain ⟨same, _, leads, rfl⟩ := opens pmd rfl
    have level : addr.toNat / 2 ^ pmdShift = addr.toNat / 4096 / 512 :=
      (Nat.div_div_eq_div_mul _ 4096 512).symm
    rw [ofNat_tableIndex (by decide), level]
    refine (same.tabled.ioremapPmdLoop leads range physAligned fun va above below => ?_).mono
      fun _ final remapped success => same.remapped (remapped success)
    rw [same.translates]
    exact unmapped va above below

theorem Tabled.ioremapPageLoop (range : PageRange (pgdirShift + 9) addr stop)
    (physAligned : 4096 ∣ physAddr.toNat) (unmapped : Unmapped vaPaOffset root memory addr stop) :
    Ensures (ioremapPageLoop vaPaOffset prot stop turns
      ((tableLayout vaPaOffset).cell root (indexOf (addr.toNat / 4096 / 512 / 512))) addr physAddr)
      memory fun err after =>
        err = 0 → Remapped vaPaOffset root prot addr stop physAddr memory after := by
  induction turns generalizing memory addr physAddr with
  | zero => exact ensures_throw
  | succ turns ih =>
    obtain ⟨part, within, rest⟩ := range.addrEnd (by decide) (by decide : pgdirShift < 64)
    rw [ioremapPageLoop, pgdAddrEnd]
    generalize addrEnd pgdirShift addr stop = next at part within rest ⊢
    have start : addr ≤ next := le_iff_toNat_le.mpr part.less.le
    refine (tabled.ioremapPmdRange part physAligned fun va above below => ?_).bind
      fun err between first => ?_
    · exact unmapped va above (UInt64.lt_of_lt_of_le below within)
    split
    · next failed => exact ensures_pure failed.elim
    next success =>
    have first := first (not_not.mp success)
    split
    · next more =>
      obtain ⟨range', bound, quotient⟩ := rest more
      have level : ∀ number, number / 4096 / 512 / 512 = number / 2 ^ pgdirShift := by
        intro number
        rw [Nat.div_div_eq_div_mul, Nat.div_div_eq_div_mul]
        rfl
      rw [level, indexOf_add_one bound, ← quotient, ← level]
      refine (ih first.tabled range' ?_ ?_).mono fun _ after second isZero =>
        first.trans start within (second isZero)
      · exact physAligned_add physAligned range.aligned part.ends
      · intro va above below
        exact first.none above (unmapped va (UInt64.le_trans start above) below)
    · next last =>
      rw [not_not.mp last] at first
      exact ensures_pure fun _ => first

end Loops

/-- On success, `ioremap_page_range` maps the pages of its range to consecutive physical addresses
with its protection, and changes no other translation. -/
theorem ioremapPageRange_translates {vaPaOffset root addr stop physAddr : UInt64} {prot : Pgprot}
    {memory after : PageMemory} (tabled : Tabled vaPaOffset (frameOf root) memory)
    (high : 2 ^ 64 - 2 ^ 38 ≤ addr.toNat) (addrAligned : 4096 ∣ addr.toNat)
    (stopAligned : 4096 ∣ stop.toNat) (less : addr < stop) (physAligned : 4096 ∣ physAddr.toNat)
    (unmapped : Unmapped vaPaOffset (frameOf root) memory addr stop)
    (returns : ioremapPageRange vaPaOffset root addr stop physAddr prot memory = .ok (0, after)) :
    ∀ va, translate vaPaOffset after (frameOf root) va =
      if addr ≤ va ∧ va < stop then some (physAddr + (va - addr), prot.bits)
      else translate vaPaOffset memory (frameOf root) va := by
  have number := lt_iff_toNat_lt.mp less
  have range : PageRange (pgdirShift + 9) addr stop := by
    refine ⟨high, addrAligned, stopAligned, number, ?_⟩
    have top := stop.toNat_lt
    have shift : pgdirShift + 9 = 39 := rfl
    rw [shift]
    omega
  have pointer : pfnToVirt vaPaOffset root + 8 * pgdIndex addr =
      (tableLayout vaPaOffset).cell (frameOf root) (indexOf (addr.toNat / 4096 / 512 / 512)) := by
    have bound : (pgdIndex addr).toNat < 512 := by
      rw [pgdIndex, toNat_tableIndex (by decide)]
      exact mod_lt _ (by decide)
    rw [pfnToVirt_add root bound, pgdIndex, ofNat_tableIndex (by decide), Nat.div_div_eq_div_mul,
      Nat.div_div_eq_div_mul]
    rfl
  rw [ioremapPageRange, if_neg (UInt64.not_le.mpr less), pointer] at returns
  exact (tabled.ioremapPageLoop range physAligned unmapped 0 after returns rfl).translates

/-- Tables without entries. -/
theorem tabled_blank {vaPaOffset : UInt64} {root : Fin (2 ^ 52)} {free : List UInt64}
    (distinct : (root :: free.map frameOf).Nodup) : Tabled vaPaOffset root ⟨fun _ => 0, free⟩ := by
  have onlyRoot : ∀ path reached,
      table (tableLayout vaPaOffset) (fun _ => 0) root path = some reached → path = [] ∧
        reached = root := by
    intro path reached leads
    cases path with
    | nil => exact ⟨rfl, (Option.some.inj leads).symm⟩
    | cons index rest =>
      rw [table] at leads
      cases leads
  have parts := List.nodup_cons.mp distinct
  refine ⟨fun first second reached _ _ leadsFirst leadsSecond => ?_, parts.2,
    fun pfn member path _ leads => ?_⟩
  · rw [(onlyRoot first reached leadsFirst).1, (onlyRoot second reached leadsSecond).1]
  · exact parts.1 ((onlyRoot path _ leads).2 ▸ List.mem_map_of_mem member)

theorem unmapped_blank (vaPaOffset : UInt64) (root : Fin (2 ^ 52)) (free : List UInt64)
    (addr stop : UInt64) : Unmapped vaPaOffset root ⟨fun _ => 0, free⟩ addr stop := by
  intro va _ _
  rw [translate, indices_eq, find_of_empty rfl]
  exact ite_self none

/-- `PAGE_KERNEL`. -/
def pageKernel : Pgprot := ⟨0xc7, by decide, by decide⟩

/-- Two pages on both sides of a boundary of 1 GiB, into empty tables. -/
theorem ioremapPageRange_translates_boundary :
    ∃ after, ioremapPageRange 0xffffffe000000000 0 0xffffffd03ffff000 0xffffffd040001000 0x10001000
        pageKernel ⟨fun _ => 0, [1, 2, 3, 4]⟩ = .ok (0, after) ∧
      translate 0xffffffe000000000 after (frameOf 0) 0xffffffd03ffff123 = some (0x10001123, 0xc7) ∧
      translate 0xffffffe000000000 after (frameOf 0) 0xffffffd040000008 = some (0x10002008, 0xc7) ∧
      translate 0xffffffe000000000 after (frameOf 0) 0xffffffd040001000 = none := by
  have success : (ioremapPageRange 0xffffffe000000000 0 0xffffffd03ffff000 0xffffffd040001000
      0x10001000 pageKernel ⟨fun _ => 0, [1, 2, 3, 4]⟩).map Prod.fst = .ok 0 := by decide +kernel
  obtain ⟨⟨_, after⟩, returns, rfl⟩ := exists_ok_of_map success
  have blank : translate 0xffffffe000000000 ⟨fun _ => 0, [1, 2, 3, 4]⟩ (frameOf 0)
      0xffffffd040001000 = none :=
    unmapped_blank _ _ _ 0xffffffd040001000 0xffffffd040002000 _ (by decide) (by decide)
  have translates := ioremapPageRange_translates (tabled_blank (by decide)) (by decide) (by decide)
    (by decide) (by decide) (by decide) (unmapped_blank _ _ _ _ _) returns
  exact ⟨after, returns, translates _, translates _, (translates _).trans blank⟩

end Xlinux
