/-
This file models how `startup/module.c` loads the modules behind the kernel: each
image in the flash is laid out, its sections are copied to the destination and
its `struct module` is put behind them, and the next image goes to the next
multiple of eight bytes. The sections of a module lie in its range, apart from
each other, with the bytes of the file. The ranges of the modules are apart as
long as the rounded size of a module is an `unsigned int`.
-/

import Xlinux.Lib.Bytes
import Xlinux.Module.Layout

namespace Xlinux

open Bytes List

/-! ### The code -/

/-- What the loader reads of the header of an image, with its section headers. -/
structure ModuleImage where
  sechdrs : List ElfShdr
  ePhoff : UInt64
  deriving DecidableEq, Repr

/-- `rewrite_section_headers`: the header at index 0 is skipped. -/
def rewriteSectionHeaders (hdr : UInt64) : List ElfShdr → List ElfShdr
  | [] => []
  | first :: rest => first :: rest.map fun s => { s with shAddr := hdr + s.shOffset }

/-- The loop of `move_module`. -/
def moveLoop (addr : UInt64) : List ElfShdr → Memory → List ElfShdr × Memory
  | [], memory => ([], memory)
  | s :: rest, memory =>
    if s.shFlags &&& shfAlloc = 0 then
      let (rest, memory) := moveLoop addr rest memory
      (s :: rest, memory)
    else
      let p := addr + s.shEntsize
      let memory := if s.shType = shtNobits then memory else copy s.shSize.toNat p s.shAddr memory
      let (rest, memory) := moveLoop addr rest memory
      ({ s with shAddr := p } :: rest, memory)

/-- `move_module`. -/
def moveModule (addr : UInt64) (layout : ModuleLayout) (sechdrs : List ElfShdr) (memory : Memory) :
    List ElfShdr × Memory :=
  moveLoop addr sechdrs (fill 0 layout.size.toNat addr memory)

/-- `sizeof(struct module)`. -/
def sizeofModule : UInt32 := 48

/-- `ROUND_UP(x, 8)` for an `unsigned int`: eight is added before one is subtracted as an
`unsigned long`. -/
def roundUpUInt (x : UInt32) : UInt64 := roundDown ((x + 8).toUInt64 - 1) 8

/-- `ROUND_UP(x, 8)` for an `unsigned long`. -/
def roundUpULong (x : UInt64) : UInt64 := roundDown (x + 8 - 1) 8

/-- A module when its sections have been moved. -/
structure LoadedModule where
  src : UInt64
  addr : UInt64
  layout : ModuleLayout
  sechdrs : List ElfShdr
  before : Memory
  moved : Memory

/-- The loop of `init_other_modules` over the images in the flash. What `simplify_symbols`,
`apply_relocations` and `finalize_module` write is the parameter `finish`. -/
def initOtherModules (finish : LoadedModule → Memory) :
    List ModuleImage → UInt64 → UInt64 → Memory → List LoadedModule
  | [], _, _, _ => []
  | image :: rest, srcAddr, dstAddr, memory =>
    let (layout, sechdrs) := layoutSections (rewriteSectionHeaders srcAddr image.sechdrs)
    let (sechdrs, moved) := moveModule dstAddr layout sechdrs memory
    let mod := ⟨srcAddr, dstAddr, layout, sechdrs, memory, moved⟩
    mod :: initOtherModules finish rest (srcAddr + roundUpULong image.ePhoff)
      (dstAddr + roundUpUInt (layout.size + sizeofModule)) (finish mod)

/-! ### Moving the sections -/

/-- Whether a section is loaded. -/
def ElfShdr.Alloc (s : ElfShdr) : Prop := s.shFlags &&& shfAlloc ≠ 0

/-- The bytes of a section are copied. -/
def ElfShdr.Copied (s : ElfShdr) : Prop := s.Alloc ∧ s.shType ≠ shtNobits

/-- The header after the move. -/
def ElfShdr.moveTo (addr : UInt64) (s : ElfShdr) : ElfShdr :=
  if s.shFlags &&& shfAlloc = 0 then s else { s with shAddr := addr + s.shEntsize }

theorem ElfShdr.alloc_moveTo (addr : UInt64) (s : ElfShdr) : (s.moveTo addr).Alloc ↔ s.Alloc := by
  rw [ElfShdr.moveTo]
  split <;> rfl

theorem ElfShdr.alloc_of_group {s : ElfShdr} {group : SectionGroup} (here : s.group = some group) :
    s.Alloc := by
  intro none
  rw [ElfShdr.group, if_pos none] at here
  cases here

section Move

variable {addr : UInt64} {size : Nat} {sechdrs : List ElfShdr}
variable {s : ElfShdr} {at_ : UInt64}

/-- The sections with `SHF_ALLOC` have places in a range that does not wrap around. -/
structure Movable (addr : UInt64) (size : Nat) (sechdrs : List ElfShdr) : Prop where
  room : addr.toNat + size < 2 ^ 64
  inside : ∀ s ∈ sechdrs, s.Alloc → s.placeEnd ≤ size
  apart : sechdrs.Pairwise fun first second => first.Alloc → second.Alloc →
    first.placeEnd ≤ second.shEntsize.toNat ∨ second.placeEnd ≤ first.shEntsize.toNat

theorem Movable.tail (movable : Movable addr size (s :: sechdrs)) : Movable addr size sechdrs where
  room := movable.room
  inside other member := movable.inside other (mem_cons_of_mem _ member)
  apart := (pairwise_cons.mp movable.apart).2

theorem toNat_place (room : addr.toNat + size < 2 ^ 64) (inside : s.placeEnd ≤ size) :
    (addr + s.shEntsize).toNat = addr.toNat + s.shEntsize.toNat := by
  rw [ElfShdr.placeEnd] at inside
  exact toNat_add_of_lt (by omega)

theorem moveLoop_sechdrs (addr : UInt64) (sechdrs : List ElfShdr) (memory : Memory) :
    (moveLoop addr sechdrs memory).1 = sechdrs.map (ElfShdr.moveTo addr) := by
  induction sechdrs generalizing memory with
  | nil => rfl
  | cons s rest ih =>
    rw [moveLoop, map_cons, ElfShdr.moveTo]
    split
    · exact congrArg (s :: ·) (ih memory)
    · exact congrArg ({ s with shAddr := addr + s.shEntsize } :: ·) (ih _)

/-- The bytes after the move of one section. -/
def moveOne (addr : UInt64) (s : ElfShdr) (memory : Memory) : Memory :=
  if s.shFlags &&& shfAlloc = 0 ∨ s.shType = shtNobits then memory
  else copy s.shSize.toNat (addr + s.shEntsize) s.shAddr memory

theorem moveLoop_cons (addr : UInt64) (s : ElfShdr) (rest : List ElfShdr) (memory : Memory) :
    (moveLoop addr (s :: rest) memory).2 = (moveLoop addr rest (moveOne addr s memory)).2 := by
  rw [moveLoop, moveOne]
  split
  case isTrue none => rw [if_pos (.inl none)]
  case isFalse some => simp only [some, false_or]

section

variable (movable : Movable addr size sechdrs)

include movable

theorem Movable.noWrap (member : s ∈ sechdrs) (alloc : s.Alloc) :
    (addr + s.shEntsize).toNat + s.shSize.toNat < 2 ^ 64 := by
  have room := movable.room
  have inside := movable.inside s member alloc
  rw [toNat_place room inside]
  rw [ElfShdr.placeEnd] at inside
  omega

theorem Movable.moveOne_outside (memory : Memory) (member : s ∈ sechdrs)
    (outside : s.Copied → ¬Within (addr + s.shEntsize) s.shSize.toNat at_) :
    moveOne addr s memory at_ = memory at_ := by
  rw [moveOne]
  split_ifs with copied
  · rfl
  · rw [not_or] at copied
    exact copy_outside (movable.noWrap member copied.1) _ _ (outside copied)

/-- A byte in no section that is copied is left alone. -/
theorem Movable.moveLoop_outside (memory : Memory)
    (outside : ∀ s ∈ sechdrs, s.Copied → ¬Within (addr + s.shEntsize) s.shSize.toNat at_) :
    (moveLoop addr sechdrs memory).2 at_ = memory at_ := by
  induction sechdrs generalizing memory with
  | nil => rfl
  | cons s rest ih =>
    obtain ⟨outsideFirst, outsideRest⟩ := forall_mem_cons.mp outside
    rw [moveLoop_cons, ih movable.tail _ outsideRest,
      movable.moveOne_outside _ mem_cons_self outsideFirst]

variable (inside : Within (addr + s.shEntsize) s.shSize.toNat at_)

include inside

theorem Movable.within (member : s ∈ sechdrs) (alloc : s.Alloc) :
    addr.toNat + s.shEntsize.toNat ≤ at_.toNat ∧ at_.toNat < addr.toNat + s.placeEnd ∧
      Within addr size at_ := by
  have bound := movable.inside s member alloc
  rw [Within, toNat_place movable.room bound] at inside
  rw [Within]
  rw [ElfShdr.placeEnd] at bound ⊢
  omega

omit movable in
/-- A byte of one section is not in another one. -/
theorem Movable.not_within_rest (movable : Movable addr size (s :: sechdrs)) (alloc : s.Alloc)
    {other : ElfShdr} (member : other ∈ sechdrs) (allocOther : other.Alloc) :
    ¬Within (addr + other.shEntsize) other.shSize.toNat at_ := by
  intro insideOther
  have first := movable.within inside mem_cons_self alloc
  have second := movable.within insideOther (mem_cons_of_mem _ member) allocOther
  have apart := (pairwise_cons.mp movable.apart).1 other member alloc allocOther
  omega

/-- The bytes of a section that is copied are those at its address before. -/
theorem Movable.moveLoop_copied (memory : Memory) (member : s ∈ sechdrs) (copied : s.Copied)
    (roomSrc : s.shAddr.toNat + s.shSize.toNat < 2 ^ 64)
    (apart : ∀ at_, Within addr size at_ → ¬Within s.shAddr s.shSize.toNat at_) :
    (moveLoop addr sechdrs memory).2 at_ = memory (s.shAddr + (at_ - (addr + s.shEntsize))) := by
  induction sechdrs generalizing memory with
  | nil => cases member
  | cons first rest ih =>
    rw [moveLoop_cons]
    rcases mem_cons.mp member with rfl | member
    · rw [movable.tail.moveLoop_outside _ fun other memberOther copiedOther =>
          movable.not_within_rest inside copied.1 memberOther copiedOther.1,
        moveOne, if_neg (not_or.mpr copied),
        copy_apply (movable.noWrap mem_cons_self copied.1) roomSrc, if_pos inside]
      exact fun one within => apart one (movable.within within mem_cons_self copied.1).2.2
    · rw [ih movable.tail _ member, movable.moveOne_outside _ mem_cons_self]
      exact fun copiedFirst within =>
        apart _ (movable.within within mem_cons_self copiedFirst.1).2.2
        (within_source inside roomSrc)

/-- A byte of a section without bits is left alone. -/
theorem Movable.moveLoop_nobits (memory : Memory) (member : s ∈ sechdrs) (alloc : s.Alloc)
    (nobits : s.shType = shtNobits) : (moveLoop addr sechdrs memory).2 at_ = memory at_ := by
  refine movable.moveLoop_outside memory fun other memberOther copied within => ?_
  have first := movable.within inside member alloc
  have second := movable.within within memberOther copied.1
  by_cases same : s = other
  · exact copied.2 (same ▸ nobits)
  · have symmetric : Std.Symm fun one two : ElfShdr => one.Alloc → two.Alloc →
        one.placeEnd ≤ two.shEntsize.toNat ∨ two.placeEnd ≤ one.shEntsize.toNat :=
      ⟨fun _ _ apart second first => (apart first second).symm⟩
    have apart := movable.apart.forall member memberOther same alloc copied.1
    omega

end

end Move

/-! ### One module -/

/-- The file bytes of a section do not lie in the memory that is written. -/
def LoadedModule.SourceApart (mod : LoadedModule) (s : ElfShdr) : Prop :=
  (mod.src + s.shOffset).toNat + s.shSize.toNat < 2 ^ 64 ∧
    ∀ at_, Within mod.addr mod.layout.size.toNat at_ →
      ¬Within (mod.src + s.shOffset) s.shSize.toNat at_

/-- The end of a section in memory. -/
def ElfShdr.addrEnd (s : ElfShdr) : Nat := s.shAddr.toNat + s.shSize.toNat

/-- The sections lie in the range of the module in the order of their groups, apart from each
other, with the bytes of the file or zeros. -/
structure LoadedModule.WellPlaced (mod : LoadedModule) : Prop where
  sizes : mod.layout.textSize.toNat ≤ mod.layout.roSize.toNat ∧
    mod.layout.roSize.toNat ≤ mod.layout.size.toNat
  inside : ∀ s ∈ mod.sechdrs, s.Alloc → mod.addr.toNat ≤ s.shAddr.toNat ∧
    s.addrEnd ≤ mod.addr.toNat + mod.layout.size.toNat
  apart : mod.sechdrs.Pairwise fun first second => first.Alloc → second.Alloc →
    first.addrEnd ≤ second.shAddr.toNat ∨ second.addrEnd ≤ first.shAddr.toNat
  executable : ∀ s ∈ mod.sechdrs, s.group = some .executable →
    s.addrEnd ≤ mod.addr.toNat + mod.layout.textSize.toNat
  readOnly : ∀ s ∈ mod.sechdrs, s.group = some .readOnly →
    mod.addr.toNat + mod.layout.textSize.toNat ≤ s.shAddr.toNat ∧
      s.addrEnd ≤ mod.addr.toNat + mod.layout.roSize.toNat
  writable : ∀ s ∈ mod.sechdrs, s.group = some .writable →
    mod.addr.toNat + mod.layout.roSize.toNat ≤ s.shAddr.toNat
  zeros : ∀ s ∈ mod.sechdrs, s.Alloc → s.shType = shtNobits →
    ∀ at_, Within s.shAddr s.shSize.toNat at_ → mod.moved at_ = 0
  bytes : ∀ s ∈ mod.sechdrs, s.Alloc → s.shType ≠ shtNobits → mod.SourceApart s →
    ∀ at_, Within s.shAddr s.shSize.toNat at_ →
      mod.moved at_ = mod.before (mod.src + s.shOffset + (at_ - s.shAddr))

/-- The image is one that can be loaded: index 0 is no section, alignments are powers of two and
the sections fit in an `unsigned int`. -/
structure ModuleImage.Loadable (image : ModuleImage) : Prop where
  null : ∀ first ∈ image.sechdrs.head?, ¬first.Alloc
  aligned : ∀ s ∈ image.sechdrs, s.Aligned
  small : totalSize image.sechdrs < 2 ^ 32

section One

variable {image : ModuleImage} {src dst : UInt64} {memory : Memory}

/-- The section headers of an image at an address. -/
abbrev ModuleImage.headers (image : ModuleImage) (src : UInt64) : List ElfShdr :=
  rewriteSectionHeaders src image.sechdrs

theorem samePlacing_rewrite (src : UInt64) (sechdrs : List ElfShdr) :
    List.Forall₂ SamePlacing sechdrs (rewriteSectionHeaders src sechdrs) := by
  have self : ∀ s : ElfShdr, SamePlacing s s := fun s => ⟨rfl, rfl, rfl⟩
  cases sechdrs with
  | nil => exact .nil
  | cons first rest =>
    refine .cons (self first) (forall₂_map_right_iff.mpr (forall₂_same.mpr fun s _ => ?_))
    exact ⟨rfl, rfl, rfl⟩

theorem shAddr_of_mem_rewrite {sechdrs : List ElfShdr}
    (null : ∀ first ∈ sechdrs.head?, ¬first.Alloc)
    {s : ElfShdr} (member : s ∈ rewriteSectionHeaders src sechdrs) (alloc : s.Alloc) :
    s.shAddr = src + s.shOffset := by
  cases sechdrs with
  | nil => cases member
  | cons first rest =>
    rcases mem_cons.mp member with rfl | member
    · exact absurd alloc (null s rfl)
    · obtain ⟨_, -, rfl⟩ := mem_map.mp member
      rfl

/-- The module of an image at two addresses. -/
def loadOne (image : ModuleImage) (src dst : UInt64) (memory : Memory) : LoadedModule :=
  let laid := layoutSections (image.headers src)
  let moved := moveModule dst laid.1 laid.2 memory
  ⟨src, dst, laid.1, moved.1, memory, moved.2⟩

theorem totalSize_headers (image : ModuleImage) (src : UInt64) :
    totalSize (image.headers src) = totalSize image.sechdrs := by
  simp only [totalSize, groupEnd_congr _ (samePlacing_rewrite src image.sechdrs)]

theorem ModuleImage.Loadable.layoutOf (loadable : image.Loadable) (src : UInt64) :
    LayoutOf (image.headers src) (totalSize image.sechdrs)
    (layoutSections (image.headers src)) := by
  have same := samePlacing_rewrite src image.sechdrs
  rw [← totalSize_headers]
  exact layoutSections_laidOut (aligned_of_same same loadable.aligned)
    (totalSize_headers image src ▸ loadable.small)

theorem ModuleImage.Loadable.wellPlaced (loadable : image.Loadable) (src : UInt64) (memory : Memory)
    (room : dst.toNat + totalSize image.sechdrs < 2 ^ 64) :
    (loadOne image src dst memory).WellPlaced := by
  obtain ⟨laid, size, roSize, textSize, text_le, ro_le⟩ := loadable.layoutOf src
  have size : (loadOne image src dst memory).layout.size.toNat = totalSize image.sechdrs := size
  have sechdrs : (loadOne image src dst memory).sechdrs =
      (layoutSections (image.headers src)).2.map (ElfShdr.moveTo dst) :=
    moveLoop_sechdrs _ _ _
  have alloc_placed : ∀ s ∈ (layoutSections (image.headers src)).2, s.Alloc → s.Placed :=
    fun s member alloc => (laid.placed s member).mpr (ElfShdr.group_cases alloc)
  have movable : Movable dst (totalSize image.sechdrs) (layoutSections (image.headers src)).2 := by
    refine ⟨room, fun s member alloc => laid.before s member (alloc_placed s member alloc), ?_⟩
    refine laid.apart.imp_of_mem fun first second apart allocFirst allocSecond => ?_
    exact apart (alloc_placed _ first allocFirst) (alloc_placed _ second allocSecond)
  -- What a header of the module was before the move.
  have moved : ∀ s ∈ (loadOne image src dst memory).sechdrs, s.Alloc →
      ∃ t ∈ (layoutSections (image.headers src)).2, t.Alloc ∧
        s = { t with shAddr := dst + t.shEntsize } ∧
        s.shAddr.toNat = dst.toNat + t.shEntsize.toNat ∧ s.addrEnd = dst.toNat + t.placeEnd := by
    intro s member alloc
    rw [sechdrs] at member
    obtain ⟨t, memberOld, rfl⟩ := mem_map.mp member
    have allocOld : t.Alloc := (ElfShdr.alloc_moveTo dst t).mp alloc
    have place := toNat_place room (movable.inside t memberOld allocOld)
    rw [ElfShdr.moveTo, if_neg allocOld]
    refine ⟨t, memberOld, allocOld, rfl, place, ?_⟩
    show (dst + t.shEntsize).toNat + _ = dst.toNat + (_ + _)
    rw [place, add_assoc]
  have bounds : ∀ s ∈ (loadOne image src dst memory).sechdrs, ∀ group, s.group = some group →
      dst.toNat + (groupBounds (image.headers src) group).start ≤ s.shAddr.toNat ∧
        s.addrEnd ≤ dst.toNat + (groupBounds (image.headers src) group).stop := by
    intro s member group here
    obtain ⟨t, memberOld, allocOld, rfl, place, last⟩ :=
      moved s member (ElfShdr.alloc_of_group here)
    have all : ∀ one : SectionGroup, one ∈ [SectionGroup.writable, .readOnly, .executable] :=
      fun one => by cases one <;> decide
    have inside := laid.bounds t memberOld group (all group) here
    omega
  refine ⟨?_, fun s member alloc => ?_, ?_, fun s member here => ?_, fun s member here => ?_,
    fun s member here => ?_, fun s member alloc nobits at_ within => ?_,
    fun s member alloc bits source at_ within => ?_⟩
  · exact ⟨textSize.trans_le (text_le.trans roSize.ge), roSize.trans_le (ro_le.trans size.ge)⟩
  · obtain ⟨t, memberOld, allocOld, rfl, place, last⟩ := moved s member alloc
    have inside := movable.inside t memberOld allocOld
    show dst.toNat ≤ _ ∧ _ ≤ dst.toNat + _
    omega
  · rw [sechdrs, pairwise_map]
    refine movable.apart.imp_of_mem fun first second apart allocFirst allocSecond => ?_
    rw [ElfShdr.alloc_moveTo] at allocFirst allocSecond
    have placeFirst := toNat_place room (movable.inside _ first allocFirst)
    have placeSecond := toNat_place room (movable.inside _ second allocSecond)
    rw [ElfShdr.moveTo, if_neg allocFirst, ElfShdr.moveTo, if_neg allocSecond]
    have less := apart allocFirst allocSecond
    dsimp only [ElfShdr.addrEnd, ElfShdr.placeEnd] at less ⊢
    omega
  · exact textSize ▸ (bounds s member _ here).2
  · exact textSize ▸ roSize ▸ bounds s member _ here
  · exact roSize ▸ (bounds s member _ here).1
  · obtain ⟨t, memberOld, allocOld, rfl, place, last⟩ := moved s member alloc
    have zero : fill 0 (loadOne image src dst memory).layout.size.toNat dst memory at_ = 0 := by
      rw [size, fill_apply room, if_pos (movable.within within memberOld allocOld).2.2]
    exact (movable.moveLoop_nobits within _ memberOld allocOld nobits).trans zero
  · obtain ⟨t, memberOld, allocOld, rfl, place, last⟩ := moved s member alloc
    obtain ⟨r, memberFile, same⟩ := exists_of_forall₂ laid.same memberOld
    have address : t.shAddr = src + t.shOffset := by
      rw [same] at allocOld ⊢
      exact shAddr_of_mem_rewrite (s := r) loadable.null memberFile allocOld
    have roomSrc : t.shAddr.toNat + t.shSize.toNat < 2 ^ 64 := address ▸ source.1
    have outside : ∀ at_, Within dst (totalSize image.sechdrs) at_ →
        ¬Within t.shAddr t.shSize.toNat at_ := by
      rw [address, ← size]
      exact source.2
    have copied := movable.moveLoop_copied within
      (fill 0 (loadOne image src dst memory).layout.size.toNat dst memory) memberOld
      ⟨allocOld, bits⟩ roomSrc outside
    refine copied.trans ?_
    rw [size, fill_apply room, if_neg fun inside =>
      outside _ inside (within_source within roomSrc), address]
    rfl

end One

/-! ### The next address -/

/-- The sum is taken in an `unsigned int`: it is lost when there is a carry. -/
theorem toNat_roundUpUInt (x : UInt32) :
    (roundUpUInt x).toNat = ((x.toNat + 8) % 2 ^ 32 + (2 ^ 64 - 1)) % 2 ^ 64 / 8 * 8 := by
  rw [roundUpUInt, toNat_roundDown (show (8 : UInt64).toNat = 2 ^ 3 from rfl), UInt64.toNat_sub,
    UInt32.toNat_toUInt64, UInt32.toNat_add, show (8 : UInt32).toNat = 8 from rfl,
    UInt64.toNat_one]
  omega

/-- The size of the range a module uses, with its `struct module`. -/
def LoadedModule.used (mod : LoadedModule) : Nat := mod.layout.size.toNat + sizeofModule.toNat

/-- The ranges of two modules do not overlap. -/
def LoadedModule.Apart (first second : LoadedModule) : Prop :=
  first.addr.toNat + first.used ≤ second.addr.toNat ∨
    second.addr.toNat + second.used ≤ first.addr.toNat

/-- The rounded size of the range of a module is an `unsigned int`. -/
def ModuleImage.Roundable (image : ModuleImage) : Prop :=
  totalSize image.sechdrs + sizeofModule.toNat + 8 < 2 ^ 32

instance (image : ModuleImage) : Decidable image.Roundable := inferInstanceAs (Decidable (_ < _))

/-- The memory a list of images needs. -/
def neededFor (images : List ModuleImage) : Nat :=
  (images.map fun image => totalSize image.sechdrs + sizeofModule.toNat + 8).sum

/-! ### All modules -/

section All

variable {finish : LoadedModule → Memory} {images : List ModuleImage} {src dst : UInt64}
    {memory : Memory}

/-- The destination of the module behind an image. -/
def nextDst (image : ModuleImage) (src dst : UInt64) (memory : Memory) : UInt64 :=
  dst + roundUpUInt ((loadOne image src dst memory).layout.size + sizeofModule)

theorem initOtherModules_cons (image : ModuleImage) (rest : List ModuleImage) :
    initOtherModules finish (image :: rest) src dst memory =
      loadOne image src dst memory :: initOtherModules finish rest (src + roundUpULong image.ePhoff)
        (nextDst image src dst memory) (finish (loadOne image src dst memory)) :=
  rfl

theorem neededFor_cons (image : ModuleImage) (rest : List ModuleImage) :
    neededFor (image :: rest) = totalSize image.sechdrs + sizeofModule.toNat + 8 +
      neededFor rest := by
  rw [neededFor, map_cons, sum_cons, neededFor]

/-- The memory from the destination on has room for the images, and there is some before it. -/
structure HasRoom (images : List ModuleImage) (dst : UInt64) : Prop where
  low : 8 * images.length ≤ dst.toNat
  high : dst.toNat + neededFor images < 2 ^ 64

variable {image : ModuleImage} {rest : List ModuleImage}

theorem ModuleImage.Loadable.used (loadable : image.Loadable) :
    (loadOne image src dst memory).used = totalSize image.sechdrs + sizeofModule.toNat :=
  congrArg (· + sizeofModule.toNat) (loadable.layoutOf src).size

namespace HasRoom

variable (hasRoom : HasRoom (image :: rest) dst)

include hasRoom

/-- A module that can be rounded is followed by one behind its range, another one by a module that
begins in its range or just before it. -/
theorem next_dst (loadable : image.Loadable) :
    if image.Roundable then
      dst.toNat + (loadOne image src dst memory).used ≤ (nextDst image src dst memory).toNat ∧
        (nextDst image src dst memory).toNat ≤ dst.toNat + (loadOne image src dst memory).used + 8
    else
      dst.toNat ≤ (nextDst image src dst memory).toNat + 8 ∧
        (nextDst image src dst memory).toNat ≤ dst.toNat + sizeofModule.toNat := by
  obtain ⟨low, high⟩ := hasRoom
  have fortyEight : sizeofModule.toNat = 48 := rfl
  have size : (loadOne image src dst memory).layout.size.toNat = _ := (loadable.layoutOf src).size
  have bound := size ▸ UInt32.toNat_lt _
  rw [length_cons] at low
  rw [neededFor_cons] at high
  rw [loadable.used, nextDst, UInt64.toNat_add, toNat_roundUpUInt, UInt32.toNat_add]
  split_ifs with small
  · rw [ModuleImage.Roundable] at small
    omega
  · rw [ModuleImage.Roundable] at small
    omega

theorem next (loadable : image.Loadable) : HasRoom rest (nextDst image src dst memory) := by
  have step := @HasRoom.next_dst src dst memory image rest hasRoom loadable
  obtain ⟨low, high⟩ := hasRoom
  rw [length_cons] at low
  rw [neededFor_cons] at high
  rw [loadable.used] at step
  constructor <;> split at step <;> omega

/-- Two neighbours are apart exactly when the first one can be rounded. -/
theorem apart_iff {next : ModuleImage} (loadable : image.Loadable) (loadableNext : next.Loadable)
    {srcNext : UInt64} {after : Memory} :
    (loadOne image src dst memory).Apart
        (loadOne next srcNext (nextDst image src dst memory) after) ↔ image.Roundable := by
  have step := @HasRoom.next_dst src dst memory image rest hasRoom loadable
  have fortyEight : sizeofModule.toNat = 48 := rfl
  rw [LoadedModule.Apart, loadableNext.used]
  show dst.toNat + _ ≤ (nextDst image src dst memory).toNat ∨
    (nextDst image src dst memory).toNat + _ ≤ dst.toNat ↔ _
  split_ifs at step with roundable
  · exact iff_of_true (.inl step.1) roundable
  · refine iff_of_false ?_ roundable
    rw [ModuleImage.Roundable] at roundable
    rw [loadable.used]
    omega

theorem single : dst.toNat + totalSize image.sechdrs < 2 ^ 64 := by
  have high := hasRoom.high
  rw [neededFor_cons] at high
  omega

end HasRoom

variable (loadable : ∀ image ∈ images, image.Loadable)

include loadable

theorem initOtherModules_wellPlaced (hasRoom : HasRoom images dst) :
    ∀ mod ∈ initOtherModules finish images src dst memory, mod.WellPlaced := by
  induction images generalizing src dst memory with
  | nil => nofun
  | cons image rest ih =>
    obtain ⟨first, others⟩ := forall_mem_cons.mp loadable
    rw [initOtherModules_cons, forall_mem_cons]
    exact ⟨first.wellPlaced src memory hasRoom.single, ih others (hasRoom.next first)⟩

/-- The rounded sizes let the destination grow only. -/
theorem initOtherModules_above (hasRoom : HasRoom images dst)
    (roundable : ∀ image ∈ images.dropLast, image.Roundable) :
    ∀ mod ∈ initOtherModules finish images src dst memory, dst.toNat ≤ mod.addr.toNat := by
  induction images generalizing src dst memory with
  | nil => nofun
  | cons image rest ih =>
    obtain ⟨first, others⟩ := forall_mem_cons.mp loadable
    rw [initOtherModules_cons, forall_mem_cons]
    refine ⟨le_rfl, fun mod member => ?_⟩
    cases rest with
    | nil => cases member
    | cons next rest =>
      rw [dropLast_cons_cons, forall_mem_cons] at roundable
      have step := @HasRoom.next_dst src dst memory image _ hasRoom first
      rw [if_pos roundable.1] at step
      have above := ih others (hasRoom.next first) roundable.2 mod member
      omega

/-- The ranges are apart exactly when every module but the last can be rounded. -/
theorem initOtherModules_pairwise (hasRoom : HasRoom images dst) :
    (initOtherModules finish images src dst memory).Pairwise LoadedModule.Apart ↔
      ∀ image ∈ images.dropLast, image.Roundable := by
  induction images generalizing src dst memory with
  | nil => exact iff_of_true .nil nofun
  | cons image rest ih =>
    obtain ⟨first, others⟩ := forall_mem_cons.mp loadable
    cases rest with
    | nil => exact iff_of_true (pairwise_singleton _ _) nofun
    | cons next rest =>
      rw [initOtherModules_cons, pairwise_cons, ih others (hasRoom.next first),
        dropLast_cons_cons, forall_mem_cons]
      refine and_congr_left fun roundable => ⟨fun apart => ?_, fun here mod member => .inl ?_⟩
      · exact (hasRoom.apart_iff first (forall_mem_cons.mp others).1).mp (apart _ mem_cons_self)
      · have step := @HasRoom.next_dst src dst memory image _ hasRoom first
        rw [if_pos here] at step
        exact step.1.trans (initOtherModules_above others (hasRoom.next first) roundable mod member)

end All

/-- Every module is loaded well, and the ranges of the modules are apart exactly when the rounded
range of every module but the last is an `unsigned int`. -/
theorem initOtherModules_apart_iff (finish : LoadedModule → Memory) (images : List ModuleImage)
    (loadable : ∀ image ∈ images, image.Loadable) (src dst : UInt64) (hasRoom : HasRoom images dst)
    (memory : Memory) :
    (∀ mod ∈ initOtherModules finish images src dst memory, mod.WellPlaced) ∧
      ((initOtherModules finish images src dst memory).Pairwise LoadedModule.Apart ↔
        ∀ image ∈ images.dropLast, image.Roundable) :=
  ⟨initOtherModules_wellPlaced loadable hasRoom, initOtherModules_pairwise loadable hasRoom⟩

/-- The header at index 0. -/
def nullShdr : ElfShdr := ⟨0, 0, 0, 0, 0, 0, 0, 0⟩

/-- An image with one section of zeros. -/
def zeroImage (size : UInt64) : ModuleImage :=
  ⟨[nullShdr, ⟨shtNobits, shfAlloc ||| shfWrite, 0, 0, size, 0, 1, 0⟩], 64⟩

theorem loadable_zeroImage {size : UInt64} (small : totalSize (zeroImage size).sechdrs < 2 ^ 32) :
    (zeroImage size).Loadable where
  null := by
    rintro first ⟨rfl⟩
    exact fun alloc => alloc rfl
  aligned := forall_mem_cons.mpr ⟨.inl rfl, forall_mem_cons.mpr ⟨.inr ⟨0, rfl⟩, nofun⟩⟩
  small := small

theorem initOtherModules_apart_iff_small :
    ((initOtherModules LoadedModule.moved [zeroImage 100, zeroImage 8] 0x1000 0x10000 fun _ =>
      7).Pairwise LoadedModule.Apart) := by
  have images : ∀ image ∈ [zeroImage 100, zeroImage 8], image.Loadable :=
    forall_mem_cons.mpr ⟨loadable_zeroImage (by decide),
      forall_mem_cons.mpr ⟨loadable_zeroImage (by decide), nofun⟩⟩
  have result :=
    initOtherModules_apart_iff LoadedModule.moved [zeroImage 100, zeroImage 8] images 0x1000
    0x10000 ⟨by decide, by decide⟩ fun _ => 7
  refine result.2.mpr (forall_mem_cons.mpr ⟨?_, nofun⟩)
  rw [ModuleImage.Roundable]
  decide

/-- A big module and one without sections. -/
def bigThenSmall : List ModuleImage := [zeroImage 0xffffffcc, ⟨[nullShdr], 64⟩]

theorem loadable_bigThenSmall : ∀ image ∈ bigThenSmall, image.Loadable := by
  refine forall_mem_cons.mpr ⟨loadable_zeroImage (by decide), forall_mem_cons.mpr ⟨⟨?_,
    forall_mem_cons.mpr ⟨.inl rfl, nofun⟩, by decide⟩, nofun⟩⟩
  rintro first ⟨rfl⟩
  exact fun alloc => alloc rfl

/-- A module of four bytes less than 4 GiB is overwritten by the next one. -/
theorem initOtherModules_overlap :
    (∀ image ∈ bigThenSmall, image.Loadable) ∧ HasRoom bigThenSmall 0x10000 ∧
      (initOtherModules LoadedModule.moved bigThenSmall 0x1000 0x10000 fun _ => 0).map
        (fun mod => (mod.addr, mod.used)) = [(0x10000, 0xfffffffc), (0x10000, 48)] ∧
      ¬(initOtherModules LoadedModule.moved bigThenSmall 0x1000 0x10000 fun _ => 0).Pairwise
        LoadedModule.Apart := by
  have room : HasRoom bigThenSmall 0x10000 := ⟨by decide, by decide⟩
  refine ⟨loadable_bigThenSmall, room, rfl, fun apart => ?_⟩
  have rounded := (initOtherModules_pairwise loadable_bigThenSmall room).mp apart _ mem_cons_self
  rw [ModuleImage.Roundable] at rounded
  exact absurd rounded (by decide)

end Xlinux
