/-
This file asks whether the sections of a module and its `struct module` come to
addresses that are aligned for them. The offset of a section in its module always
is, whatever the sizes. The module itself begins at a multiple of eight only, and
its `struct module` begins right behind its last section.
-/

import Xlinux.Module.Load

namespace Xlinux

open List

/-! ### Offsets -/

/-- The place of a section, if it has one, is aligned. -/
structure ElfShdr.PlacedAligned (s : ElfShdr) : Prop where
  aligned : s.Aligned
  place : s.Placed → s.align.toNat ∣ s.shEntsize.toNat

theorem dvd_getModuleOffset (size : UInt32) {s : ElfShdr} (aligned : s.Aligned) :
    s.align.toNat ∣ (getModuleOffset size s).1.toNat := by
  obtain ⟨shift, power⟩ := aligned.align
  show _ ∣ (alignUInt size s.align).toUInt64.toNat
  rw [UInt32.toNat_toUInt64, alignUInt, toNat_and_not_uint (toNat_alignMask power), power]
  rcases le_total shift 32 with short | long
  · rw [min_eq_left short]
    exact dvd_mul_left ..
  · rw [min_eq_right long, Nat.div_eq_of_lt (UInt32.toNat_lt _)]
    exact Nat.dvd_zero _

/-- A pass aligns what it places, and leaves nothing that it would place. -/
theorem layoutPass_aligned (mask : UInt64 × UInt64) (size : UInt32) {sechdrs : List ElfShdr}
    (aligned : ∀ s ∈ sechdrs, s.PlacedAligned) :
    ∀ s ∈ (layoutPass mask size sechdrs).2, s.PlacedAligned ∧ selects mask s = false := by
  induction sechdrs generalizing size with
  | nil => nofun
  | cons s rest ih =>
    obtain ⟨first, others⟩ := forall_mem_cons.mp aligned
    rw [layoutPass]
    split_ifs with skipped
    · exact forall_mem_cons.mpr ⟨⟨⟨first.aligned, fun _ => dvd_getModuleOffset size first.aligned⟩,
        decide_eq_false fun chosen => getModuleOffset_ne size s chosen.2.2⟩, ih _ others⟩
    · exact forall_mem_cons.mpr ⟨⟨first, Bool.eq_false_iff.mpr skipped⟩, ih _ others⟩

theorem layoutSections_aligned {sechdrs : List ElfShdr} (aligned : ∀ s ∈ sechdrs, s.Aligned)
    {s : ElfShdr} (member : s ∈ (layoutSections sechdrs).2) (alloc : s.Alloc) :
    s.Aligned ∧ s.align.toNat ∣ s.shEntsize.toNat := by
  have start : ∀ s ∈ sechdrs.map fun s => ({ s with shEntsize := noPlace } : ElfShdr),
      s.PlacedAligned :=
    forall_mem_map.mpr fun s member => ⟨aligned s member, absurd rfl⟩
  have keeps : ∀ mask size {sechdrs : List ElfShdr}, (∀ s ∈ sechdrs, s.PlacedAligned) →
      ∀ s ∈ (layoutPass mask size sechdrs).2, s.PlacedAligned :=
    fun mask size _ before s member => (layoutPass_aligned mask size before s member).1
  obtain ⟨last, left⟩ := layoutPass_aligned _ _ (keeps _ _ (keeps _ _ (keeps _ _ start))) s member
  refine ⟨last.aligned, last.place fun unplaced => ?_⟩
  exact decide_eq_false_iff_not.mp left ⟨(flag_alloc _).mpr alloc, UInt64.and_zero, unplaced⟩

/-! ### Addresses -/

/-- Where `finalize_module` puts the `struct module`. -/
def LoadedModule.structAddr (mod : LoadedModule) : UInt64 := mod.addr + mod.layout.size.toUInt64

/-- The loaded sections are aligned, and the `struct module`, which has pointers in it, is too. -/
def LoadedModule.WellAligned (mod : LoadedModule) : Prop :=
  (∀ s ∈ mod.sechdrs, s.Alloc → s.align.toNat ∣ s.shAddr.toNat) ∧ 8 ∣ mod.structAddr.toNat

/-- How far behind an image the next one is loaded. -/
def ModuleImage.stride (image : ModuleImage) : UInt64 :=
  roundUpUInt (UInt32.ofNat (totalSize image.sechdrs) + sizeofModule)

/-- A section that is loaded suits an address when its alignment divides it. -/
def ElfShdr.Suits (s : ElfShdr) (base : UInt64) : Prop := s.Alloc → s.align.toNat ∣ base.toNat

/-- Images suit an address: the sections of the first image do and end at a multiple of eight, and
the others suit the address behind it. -/
def ImagesSuit : List ModuleImage → UInt64 → Prop
  | [], _ => True
  | image :: rest, base =>
    ((∀ s ∈ image.sechdrs, s.Suits base) ∧ 8 ∣ totalSize image.sechdrs) ∧
      ImagesSuit rest (base + image.stride)

theorem suits_of_same {before after : List ElfShdr} (same : List.Forall₂ SamePlacing before after)
    (base : UInt64) : (∀ s ∈ after, s.Suits base) ↔ ∀ s ∈ before, s.Suits base := by
  have alloc : ∀ s : ElfShdr, s.Alloc ↔ s.group ≠ none := fun s => by
    rw [ElfShdr.Alloc, ElfShdr.group]
    split_ifs <;> simp_all
  induction same with
  | nil => rfl
  | cons first _ ih =>
    rw [forall_mem_cons, forall_mem_cons]
    refine and_congr ?_ ih
    rw [ElfShdr.Suits, ElfShdr.Suits, alloc, alloc, first.group, ElfShdr.align, ElfShdr.align,
      first.aligned]

theorem dvd_toNat_add_iff {a x y : UInt64} {shift : Nat} (power : a.toNat = 2 ^ shift)
    (offset : a.toNat ∣ y.toNat) : a.toNat ∣ (x + y).toNat ↔ a.toNat ∣ x.toNat := by
  have short : shift ≤ 64 :=
    ((Nat.pow_lt_pow_iff_right (by decide)).mp (power ▸ a.toNat_lt : 2 ^ shift < 2 ^ 64)).le
  rw [UInt64.toNat_add, Nat.dvd_mod_iff (power ▸ pow_dvd_pow 2 short),
    ← Nat.dvd_add_iff_left offset]

theorem loadOne_stage {image : ModuleImage} (aligned : ∀ s ∈ image.sechdrs, s.Aligned)
    (src : UInt64) :
    Stage (image.headers src) [.writable, .readOnly, .executable] (totalSize image.sechdrs)
      ((layoutSections (image.headers src)).1.size, (layoutSections (image.headers src)).2) :=
  totalSize_headers image src ▸
    layoutSections_stage (aligned_of_same (samePlacing_rewrite src image.sechdrs) aligned)

theorem loadOne_wellAligned_iff {image : ModuleImage} (aligned : ∀ s ∈ image.sechdrs, s.Aligned)
    {src dst : UInt64} (eight : 8 ∣ dst.toNat) (memory : Bytes.Memory) :
    (loadOne image src dst memory).WellAligned ↔
      (∀ s ∈ image.sechdrs, s.Suits dst) ∧ 8 ∣ totalSize image.sechdrs := by
  have headers := samePlacing_rewrite src image.sechdrs
  have stage := loadOne_stage aligned src
  refine and_congr ?_ ?_
  · show (∀ s ∈ (moveLoop dst (layoutSections (image.headers src)).2 _).1, _) ↔ _
    rw [moveLoop_sechdrs, forall_mem_map, ← suits_of_same headers, ← suits_of_same stage.placing]
    refine forall₂_congr fun s member => ?_
    rw [ElfShdr.alloc_moveTo]
    refine forall_congr' fun alloc => ?_
    obtain ⟨power, offset⟩ := layoutSections_aligned (aligned_of_same headers aligned) member alloc
    obtain ⟨_, power⟩ := power.align
    rw [ElfShdr.moveTo, if_neg alloc]
    exact dvd_toNat_add_iff power offset
  · have size :
        (loadOne image src dst memory).layout.size = UInt32.ofNat (totalSize image.sechdrs) :=
      stage.size
    rw [LoadedModule.structAddr, add_comm, size]
    refine (@dvd_toNat_add_iff 8 _ dst 3 rfl eight).trans ?_
    rw [UInt32.toNat_toUInt64, UInt32.toNat_ofNat', UInt64.toNat_ofNat, Nat.dvd_mod_iff (by decide)]

/-- The loop of `init_other_modules`: the address of the next module is again a multiple of
eight. -/
theorem initOtherModules_aligned_iff {finish : LoadedModule → Bytes.Memory}
    {images : List ModuleImage}
    (aligned : ∀ image ∈ images, ∀ s ∈ image.sechdrs, s.Aligned) {src dst : UInt64}
    (eight : 8 ∣ dst.toNat) {memory : Bytes.Memory} :
    (∀ mod ∈ initOtherModules finish images src dst memory, mod.WellAligned) ↔
      ImagesSuit images dst := by
  induction images generalizing src dst memory with
  | nil => exact iff_of_true nofun trivial
  | cons image rest ih =>
    obtain ⟨first, others⟩ := forall_mem_cons.mp aligned
    have rounded : 8 ∣ image.stride.toNat := by
      rw [ModuleImage.stride, toNat_roundUpUInt]
      exact dvd_mul_left ..
    have next : nextDst image src dst memory = dst + image.stride := by
      rw [ModuleImage.stride, ← (loadOne_stage first src).size]
      rfl
    rw [initOtherModules_cons, forall_mem_cons, loadOne_wellAligned_iff first eight, next,
      ih others ((@dvd_toNat_add_iff 8 dst _ 3 rfl rounded).mpr eight), ImagesSuit]

/-- The loaded sections and the `struct module` of all modules are aligned exactly when the images
suit the address behind the kernel. -/
theorem initOtherModules_wellAligned_iff (finish : LoadedModule → Bytes.Memory)
    (images : List ModuleImage) (aligned : ∀ image ∈ images, ∀ s ∈ image.sechdrs, s.Aligned)
    (src kernelEnd : UInt64) (memory : Bytes.Memory) :
    (∀ mod ∈ initOtherModules finish images src (roundUpULong kernelEnd) memory, mod.WellAligned) ↔
      ImagesSuit images (roundUpULong kernelEnd) := by
  refine initOtherModules_aligned_iff aligned ?_
  rw [roundUpULong, toNat_roundDown (show (8 : UInt64).toNat = 2 ^ 3 from rfl)]
  exact Nat.dvd_sub_mod _

theorem initOtherModules_wellAligned_iff_two : ∃ mods,
    mods = initOtherModules LoadedModule.moved [zeroImage 16, zeroImage 8] 0x1000
        (roundUpULong 0x10001) (fun _ => 7) ∧
      mods.map LoadedModule.addr = [0x10008, 0x10048] ∧ ∀ mod ∈ mods, mod.WellAligned := by
  have images : ∀ image ∈ [zeroImage 16, zeroImage 8], ∀ s ∈ image.sechdrs, s.Aligned :=
    forall_mem_cons.mpr ⟨(loadable_zeroImage (by decide)).aligned,
      forall_mem_cons.mpr ⟨(loadable_zeroImage (by decide)).aligned, nofun⟩⟩
  refine ⟨_, rfl, by decide, (initOtherModules_wellAligned_iff LoadedModule.moved _ images 0x1000
    0x10001 fun _ => 7).mpr ?_⟩
  refine ⟨⟨?_, by decide⟩, ⟨?_, by decide⟩, trivial⟩ <;>
    exact forall_mem_cons.mpr ⟨fun _ => by decide, forall_mem_cons.mpr ⟨fun _ => by decide, nofun⟩⟩

/-- The `struct module` behind nine bytes has an odd address, and the section of the next module
comes to an address that is no multiple of its alignment. -/
theorem initOtherModules_misaligned :
    let mods := initOtherModules LoadedModule.moved [zeroImage 9,
      ⟨[⟨shtNobits, shfAlloc, 0, 0, 8, 0, 128, 0⟩], 64⟩] 0x1000 0x10000 fun _ => 0
    mods.map (fun mod => (mod.structAddr, mod.sechdrs.map ElfShdr.shAddr)) =
        [(0x10009, [0, 0x10000]), (0x10048, [0x10040])] ∧ ¬∀ mod ∈ mods, mod.WellAligned := by
  refine ⟨by decide, fun all => ?_⟩
  exact absurd (all _ mem_cons_self).2 (by decide)

end Xlinux
