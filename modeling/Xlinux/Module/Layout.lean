/-
This file models how `startup/module.c` lays out the sections of a module:
`layout_sections` goes over the section headers once for every row of a table of
flags, and gives each section that a row selects and that has no place yet the
next aligned offset, which it keeps in `sh_entsize`. The four passes place every
section with `SHF_ALLOC` once, executable sections first, then read-only ones,
then writable ones.
-/

import Xlinux.Lib.Bitmap
import Xlinux.Word

namespace Xlinux

open List Nat

variable {s : ElfShdr} {before after : List ElfShdr}

/-! ### The code -/

/-- The fields of `Elf64_Shdr` that the loader reads or writes. -/
structure ElfShdr where
  shType : UInt32
  shFlags : UInt64
  shAddr : UInt64
  shOffset : UInt64
  shSize : UInt64
  shInfo : UInt32
  shAddralign : UInt64
  shEntsize : UInt64
  deriving DecidableEq, Repr

/-- `struct layout`. -/
structure ModuleLayout where
  size : UInt32
  textSize : UInt32
  roSize : UInt32
  deriving DecidableEq, Repr

/-- `SHF_WRITE`. -/
def shfWrite : UInt64 := 0x1

/-- `SHF_ALLOC`. -/
def shfAlloc : UInt64 := 0x2

/-- `SHF_EXECINSTR`. -/
def shfExecinstr : UInt64 := 0x4

/-- `SHT_NOBITS`. -/
def shtNobits : UInt32 := 8

/-- The mark of a section without a place, `~0UL`. -/
def noPlace : UInt64 := 0xffffffffffffffff

/-- `sh_addralign ? : 1`. -/
def ElfShdr.align (s : ElfShdr) : UInt64 := if s.shAddralign = 0 then 1 else s.shAddralign

/-- `get_offset`, with the size after it. -/
def getModuleOffset (size : UInt32) (s : ElfShdr) : UInt64 × UInt32 :=
  let ret := (alignUInt size s.align).toUInt64
  (ret, (ret + s.shSize).toUInt32)

/-- The test of the inner loop of `layout_sections` that lets it continue with a section. -/
def selects (mask : UInt64 × UInt64) (s : ElfShdr) : Bool :=
  s.shFlags &&& mask.1 = mask.1 ∧ s.shFlags &&& mask.2 = 0 ∧ s.shEntsize = noPlace

/-- The inner loop of `layout_sections`. -/
def layoutPass (mask : UInt64 × UInt64) : UInt32 → List ElfShdr → UInt32 × List ElfShdr
  | size, [] => (size, [])
  | size, s :: rest =>
    if selects mask s then
      let (ret, size) := getModuleOffset size s
      let (size, rest) := layoutPass mask size rest
      (size, { s with shEntsize := ret } :: rest)
    else
      let (size, rest) := layoutPass mask size rest
      (size, s :: rest)

/-- `layout_sections`, for a layout of zeros. -/
def layoutSections (sechdrs : List ElfShdr) : ModuleLayout × List ElfShdr :=
  let sechdrs := sechdrs.map fun s => { s with shEntsize := noPlace }
  let (textSize, sechdrs) := layoutPass (shfExecinstr ||| shfAlloc, 0) 0 sechdrs
  let (roSize, sechdrs) := layoutPass (shfAlloc, shfWrite) textSize sechdrs
  let (size, sechdrs) := layoutPass (shfWrite ||| shfAlloc, 0) roSize sechdrs
  let (size, sechdrs) := layoutPass (shfAlloc, 0) size sechdrs
  (⟨size, textSize, roSize⟩, sechdrs)

/-! ### Groups of sections -/

/-- The groups in the order in which they are placed. -/
inductive SectionGroup
  | executable
  | readOnly
  | writable
  deriving DecidableEq, Repr

/-- The group of a section with `SHF_ALLOC`. -/
def ElfShdr.group (s : ElfShdr) : Option SectionGroup :=
  if s.shFlags &&& shfAlloc = 0 then none
  else if s.shFlags &&& shfExecinstr ≠ 0 then some .executable
  else if s.shFlags &&& shfWrite = 0 then some .readOnly
  else some .writable

/-- The end of a group that begins at an offset. -/
def groupEnd (group : SectionGroup) : Nat → List ElfShdr → Nat
  | start, [] => start
  | start, s :: rest =>
    if s.group = some group then
      groupEnd group (alignNat start s.align.toNat + s.shSize.toNat) rest
    else groupEnd group start rest

/-- The size of all groups. -/
def totalSize (sechdrs : List ElfShdr) : Nat :=
  groupEnd .writable (groupEnd .readOnly (groupEnd .executable 0 sechdrs) sechdrs) sechdrs

/-- The alignment is a power of two, or there is none. -/
def ElfShdr.Aligned (s : ElfShdr) : Prop := s.shAddralign = 0 ∨
    ∃ shift, s.shAddralign.toNat = 2 ^ shift

theorem ElfShdr.Aligned.align (aligned : s.Aligned) : ∃ shift, s.align.toNat = 2 ^ shift := by
  rw [ElfShdr.align]
  split_ifs with some
  · exact ⟨0, rfl⟩
  · exact aligned.resolve_left some

theorem le_groupEnd (group : SectionGroup) {sechdrs : List ElfShdr}
    (aligned : ∀ s ∈ sechdrs, s.Aligned) (start : Nat) : start ≤ groupEnd group start sechdrs := by
  induction sechdrs generalizing start with
  | nil => exact le_rfl
  | cons s rest ih =>
    obtain ⟨first, others⟩ := forall_mem_cons.mp aligned
    obtain ⟨shift, power⟩ := first.align
    rw [groupEnd]
    split
    case isFalse => exact ih others start
    case isTrue =>
      have above : start ≤ alignNat start s.align.toNat :=
        le_alignNat (power ▸ Nat.two_pow_pos shift)
      exact (above.trans (le_add_right _ _)).trans (ih others _)

theorem flag_write (flags : UInt64) : flags &&& shfWrite = shfWrite ↔ flags &&& shfWrite ≠ 0 :=
  Bitmap.and_bit_eq_mask_iff flags (show 0 < 64 by decide)

theorem flag_alloc (flags : UInt64) : flags &&& shfAlloc = shfAlloc ↔ flags &&& shfAlloc ≠ 0 :=
  Bitmap.and_bit_eq_mask_iff flags (show 1 < 64 by decide)

theorem flag_exec (flags : UInt64) :
    flags &&& shfExecinstr = shfExecinstr ↔ flags &&& shfExecinstr ≠ 0 :=
  Bitmap.and_bit_eq_mask_iff flags (show 2 < 64 by decide)

/-! ### One pass -/

/-- Whether a section has a place. -/
def ElfShdr.Placed (s : ElfShdr) : Prop := s.shEntsize ≠ noPlace

/-- The end of the place of a section. -/
def ElfShdr.placeEnd (s : ElfShdr) : Nat := s.shEntsize.toNat + s.shSize.toNat

/-- The places of two sections do not overlap. -/
def SectionsApart (first second : ElfShdr) : Prop :=
  first.Placed → second.Placed →
    first.placeEnd ≤ second.shEntsize.toNat ∨ second.placeEnd ≤ first.shEntsize.toNat

/-- What a pass does with a section: it places those of its group between two offsets. -/
inductive Laid (group : SectionGroup) (start stop : Nat) : ElfShdr → ElfShdr → Prop
  | skipped {s : ElfShdr} (other : s.group ≠ some group) : Laid group start stop s s
  | given {s : ElfShdr} (here : s.group = some group) (place : UInt64) (low : start ≤ place.toNat)
      (high : place.toNat + s.shSize.toNat ≤ stop) :
        Laid group start stop s { s with shEntsize := place }

section Pass

variable {mask : UInt64 × UInt64} {group : SectionGroup} {sechdrs : List ElfShdr}

theorem Laid.mono {start stop first last : Nat} {s after : ElfShdr}
    (laid : Laid group start stop s after)
    (lower : first ≤ start) (upper : stop ≤ last) : Laid group first last s after := by
  cases laid with
  | skipped other => exact .skipped other
  | given here place low high => exact .given here place (lower.trans low) (high.trans upper)

/-- A section behind everything that has a place so far is apart from what a pass places next. -/
theorem Laid.apart {start stop : Nat} {first second after : ElfShdr}
    (laid : Laid group start stop second after)
    (before : first.Placed → first.placeEnd ≤ start) (apart : SectionsApart first second) :
    SectionsApart first after := by
  cases laid with
  | skipped => exact apart
  | given here place low high => exact fun placed _ => .inl ((before placed).trans low)

theorem exists_of_forall₂ {Related : ElfShdr → ElfShdr → Prop}
    (related : List.Forall₂ Related before after) {new : ElfShdr} (member : new ∈ after) :
    ∃ old ∈ before, Related old new := by
  induction related with
  | nil => cases member
  | cons first _ ih =>
    rcases mem_cons.mp member with rfl | member
    · exact ⟨_, mem_cons_self, first⟩
    · obtain ⟨old, memberOld, one⟩ := ih member
      exact ⟨old, mem_cons_of_mem _ memberOld, one⟩

theorem getModuleOffset_ofNat {s : ElfShdr} (aligned : s.Aligned) (n : Nat) :
    (getModuleOffset (UInt32.ofNat n) s).2 =
      UInt32.ofNat (alignNat n s.align.toNat + s.shSize.toNat) := by
  obtain ⟨shift, power⟩ := aligned.align
  apply UInt32.toNat_inj.mp
  show ((alignUInt (UInt32.ofNat n) s.align).toUInt64 + s.shSize).toUInt32.toNat = _
  rw [alignUInt_ofNat power, power, UInt64.toNat_toUInt32, UInt64.toNat_add, UInt32.toNat_toUInt64,
    UInt32.toNat_ofNat', UInt32.toNat_ofNat']
  omega

/-- The size after a pass, modulo `2 ^ 32`. -/
theorem layoutPass_size (aligned : ∀ s ∈ sechdrs, s.Aligned)
    (selected : ∀ s ∈ sechdrs, selects mask s = decide (s.group = some group)) (start : Nat) :
    (layoutPass mask (UInt32.ofNat start) sechdrs).1 =
      UInt32.ofNat (groupEnd group start sechdrs) := by
  induction sechdrs generalizing start with
  | nil => rfl
  | cons s rest ih =>
    obtain ⟨alignedFirst, alignedRest⟩ := forall_mem_cons.mp aligned
    obtain ⟨selectedFirst, selectedRest⟩ := forall_mem_cons.mp selected
    rw [layoutPass, selectedFirst, groupEnd]
    by_cases here : s.group = some group
    · simp only [here, decide_true, if_true, getModuleOffset_ofNat alignedFirst]
      exact ih alignedRest selectedRest _
    · simp only [here, decide_false]
      exact ih alignedRest selectedRest _

theorem getModuleOffset_eq {size : UInt32} {start : Nat} {s : ElfShdr} (aligned : s.Aligned)
    (begins : size.toNat = start) (fits : alignNat start s.align.toNat + s.shSize.toNat < 2 ^ 32) :
    (getModuleOffset size s).1.toNat = alignNat start s.align.toNat ∧
      (getModuleOffset size s).2.toNat = alignNat start s.align.toNat + s.shSize.toNat := by
  obtain ⟨shift, power⟩ := aligned.align
  obtain rfl : size = UInt32.ofNat start := by rw [← begins, UInt32.ofNat_toNat]
  rw [getModuleOffset_ofNat aligned, UInt32.toNat_ofNat_of_lt' fits]
  refine ⟨?_, rfl⟩
  show (alignUInt _ s.align).toUInt64.toNat = _
  rw [UInt32.toNat_toUInt64, alignUInt_ofNat power, power,
    UInt32.toNat_ofNat_of_lt' ((Nat.le_add_right ..).trans_lt (power ▸ fits))]

/-- A pass places the sections of its group, one behind the other. -/
theorem layoutPass_laid {size : UInt32} {start : Nat} (begins : size.toNat = start)
    (aligned : ∀ s ∈ sechdrs, s.Aligned)
    (selected : ∀ s ∈ sechdrs, selects mask s = decide (s.group = some group))
    (fits : groupEnd group start sechdrs < 2 ^ 32) :
    List.Forall₂ (Laid group start (groupEnd group start sechdrs)) sechdrs
        (layoutPass mask size sechdrs).2 ∧
      ((∀ s ∈ sechdrs, s.Placed → s.placeEnd ≤ start) → sechdrs.Pairwise SectionsApart →
        (layoutPass mask size sechdrs).2.Pairwise SectionsApart) := by
  induction sechdrs generalizing size start with
  | nil => exact ⟨.nil, fun _ apart => apart⟩
  | cons s rest ih =>
    obtain ⟨alignedFirst, alignedRest⟩ := forall_mem_cons.mp aligned
    obtain ⟨selectedFirst, selectedRest⟩ := forall_mem_cons.mp selected
    rw [groupEnd] at fits ⊢
    rw [layoutPass, selectedFirst]
    by_cases here : s.group = some group
    · simp only [here] at fits ⊢
      have above : start ≤ alignNat start s.align.toNat := by
        obtain ⟨shift, power⟩ := alignedFirst.align
        exact le_alignNat (power ▸ Nat.two_pow_pos shift)
      have last := le_groupEnd group alignedRest (alignNat start s.align.toNat + s.shSize.toNat)
      obtain ⟨place, next⟩ := getModuleOffset_eq alignedFirst begins (last.trans_lt fits)
      obtain ⟨laid, apart⟩ := ih next alignedRest selectedRest fits
      refine ⟨.cons (.given here _ (above.trans place.ge) ?_) (laid.imp fun _ _ one => ?_), ?_⟩
      · rwa [place]
      · exact one.mono (by omega) le_rfl
      · intro before pairs
        obtain ⟨beforeFirst, beforeRest⟩ := forall_mem_cons.mp before
        obtain ⟨pairsFirst, pairsRest⟩ := pairwise_cons.mp pairs
        refine pairwise_cons.mpr ⟨fun after member => ?_,
          apart (fun other member placed =>
            (beforeRest other member placed).trans (by omega)) pairsRest⟩
        obtain ⟨other, memberOther, one⟩ := exists_of_forall₂ laid member
        refine one.apart (fun _ => ?_) fun _ placed => .inr ?_
        · exact (show (getModuleOffset size s).1.toNat + s.shSize.toNat ≤ _ by omega)
        · exact (beforeRest other memberOther placed).trans (above.trans place.ge)
    · simp only [here] at fits ⊢
      obtain ⟨laid, apart⟩ := ih begins alignedRest selectedRest fits
      refine ⟨.cons (.skipped here) laid, fun before pairs => ?_⟩
      obtain ⟨beforeFirst, beforeRest⟩ := forall_mem_cons.mp before
      obtain ⟨pairsFirst, pairsRest⟩ := pairwise_cons.mp pairs
      refine pairwise_cons.mpr ⟨fun after member => ?_, apart beforeRest pairsRest⟩
      obtain ⟨other, memberOther, one⟩ := exists_of_forall₂ laid member
      exact one.apart beforeFirst (pairsFirst other memberOther)

end Pass

/-! ### The four passes -/

/-- The same section, perhaps with another place. -/
def SameSection (s after : ElfShdr) : Prop := after = { s with shEntsize := after.shEntsize }

/-- Two headers that a pass treats in the same way. -/
structure SamePlacing (s after : ElfShdr) : Prop where
  group : after.group = s.group
  aligned : after.shAddralign = s.shAddralign
  size : after.shSize = s.shSize

theorem SameSection.placing {after : ElfShdr} (same : SameSection s after) : SamePlacing s after :=
  ⟨by rw [same]; rfl, by rw [same], by rw [same]⟩

theorem groupEnd_congr (group : SectionGroup) (same : List.Forall₂ SamePlacing before after)
    (start : Nat) : groupEnd group start after = groupEnd group start before := by
  induction same generalizing start with
  | nil => rfl
  | cons first _ ih =>
    rw [groupEnd, groupEnd, first.group, ih, ih, ElfShdr.align,
      ElfShdr.align, first.aligned, first.size]

/-- Where a group is placed. -/
structure GroupBounds where
  start : Nat
  stop : Nat

/-- The bounds of the groups of some sections. -/
def groupBounds (sechdrs : List ElfShdr) : SectionGroup → GroupBounds
  | .executable => ⟨0, groupEnd .executable 0 sechdrs⟩
  | .readOnly =>
    let text := groupEnd .executable 0 sechdrs
    ⟨text, groupEnd .readOnly text sechdrs⟩
  | .writable =>
    let ro := groupEnd .readOnly (groupEnd .executable 0 sechdrs) sechdrs
    ⟨ro, groupEnd .writable ro sechdrs⟩

/-- Exactly the sections of some groups have a place, with the size so far modulo `2 ^ 32`. -/
structure Stage (original : List ElfShdr) (done : List SectionGroup) (total : Nat)
    (result : UInt32 × List ElfShdr) : Prop where
  size : result.1 = UInt32.ofNat total
  same : List.Forall₂ SameSection original result.2
  placed : ∀ s ∈ result.2, s.Placed ↔ ∃ group ∈ done, s.group = some group

/-- These places are in the bounds of the groups and below the size so far, and no two sections
overlap. -/
structure LaidOut (original : List ElfShdr) (done : List SectionGroup) (total : Nat)
    (result : UInt32 × List ElfShdr) : Prop extends Stage original done total result where
  bounds : ∀ s ∈ result.2, ∀ group ∈ done, s.group = some group →
    (groupBounds original group).start ≤ s.shEntsize.toNat ∧
      s.placeEnd ≤ (groupBounds original group).stop
  before : ∀ s ∈ result.2, s.Placed → s.placeEnd ≤ total
  apart : result.2.Pairwise SectionsApart

section Passes

variable {original sechdrs : List ElfShdr} {done : List SectionGroup} {total : Nat}
  {result : UInt32 × List ElfShdr} {mask : UInt64 × UInt64} {group : SectionGroup}

/-- The flags of a section pass the tests of a pass. -/
def flagsMatch (mask : UInt64 × UInt64) (s : ElfShdr) : Prop :=
  s.shFlags &&& mask.1 = mask.1 ∧ s.shFlags &&& mask.2 = 0

/-- A pass takes the sections of a group and no others but those of the groups before it. -/
def Passes (mask : UInt64 × UInt64) (group : SectionGroup) (done : List SectionGroup) : Prop :=
  ∀ s : ElfShdr, (s.group = some group → flagsMatch mask s) ∧
    (flagsMatch mask s → ∃ one ∈ group :: done, s.group = some one)

theorem aligned_of_same (same : List.Forall₂ SamePlacing before after)
    (aligned : ∀ s ∈ before, s.Aligned) : ∀ s ∈ after, s.Aligned := fun s member => by
  obtain ⟨old, memberOld, one⟩ := exists_of_forall₂ same member
  rw [ElfShdr.Aligned, one.aligned]
  exact aligned old memberOld

/-- An `unsigned int` is never the mark of a section without a place. -/
theorem getModuleOffset_ne (size : UInt32) (s : ElfShdr) :
    (getModuleOffset size s).1 ≠ noPlace := by
  intro far
  have small := (alignUInt size s.align).toNat_lt
  rw [← UInt32.toNat_toUInt64, show (alignUInt size s.align).toUInt64 = noPlace from far] at small
  exact absurd small (by decide)

/-- A pass changes the places of the sections that it selects, and nothing else. -/
theorem layoutPass_placed (mask : UInt64 × UInt64) (size : UInt32) (sechdrs : List ElfShdr) :
    List.Forall₂ (fun s after => SameSection s after ∧
      (after.Placed ↔ s.Placed ∨ selects mask s = true)) sechdrs
        (layoutPass mask size sechdrs).2 := by
  induction sechdrs generalizing size with
  | nil => exact .nil
  | cons s rest ih =>
    rw [layoutPass]
    split
    case isTrue chosen =>
      exact .cons ⟨rfl, iff_of_true (getModuleOffset_ne size s) (.inr chosen)⟩ (ih _)
    case isFalse other => exact .cons ⟨rfl, (or_iff_left other).symm⟩ (ih _)

theorem forall₂_same_trans {before middle after : List ElfShdr}
    (first : List.Forall₂ SameSection before middle)
    (second : List.Forall₂ SameSection middle after) :
    List.Forall₂ SameSection before after := by
  induction first generalizing after with
  | nil => exact second
  | cons one _ ih =>
    cases second with
    | cons two rest =>
      refine .cons ?_ (ih rest)
      rw [SameSection, two, one]

section

variable (passes : Passes mask group done) (fresh : group ∉ done)
    (aligned : ∀ s ∈ original, s.Aligned)

theorem Stage.placing (stage : Stage original done total result) :
    List.Forall₂ SamePlacing original result.2 :=
  stage.same.imp fun _ _ => SameSection.placing

include passes fresh

theorem Stage.selects_eq (stage : Stage original done total result) :
    ∀ s ∈ result.2, selects mask s = decide (s.group = some group) := fun s member => by
  obtain ⟨complete, only⟩ := passes s
  have placed := stage.placed s member
  refine decide_eq_decide.mpr ⟨fun ⟨match1, match2, free⟩ => ?_, fun here => ?_⟩
  · obtain ⟨one, found, here⟩ := only ⟨match1, match2⟩
    rcases mem_cons.mp found with rfl | earlier
    · exact here
    · exact absurd free (placed.mpr ⟨one, earlier, here⟩)
  · obtain ⟨match1, match2⟩ := complete here
    refine ⟨match1, match2, by_contra fun some => ?_⟩
    obtain ⟨one, earlier, other⟩ := placed.mp some
    exact fresh (Option.some.inj (here.symm.trans other) ▸ earlier)

include aligned

/-- A pass places its group. -/
theorem Stage.next (stage : Stage original done total result) :
    Stage original (group :: done) (groupEnd group total original)
    (layoutPass mask result.1 result.2) := by
  have passed := layoutPass_placed mask result.1 result.2
  refine ⟨?_, forall₂_same_trans stage.same (passed.imp fun _ _ => And.left),
    fun after member => ?_⟩
  · rw [stage.size, layoutPass_size (aligned_of_same stage.placing aligned)
      (stage.selects_eq passes fresh), groupEnd_congr group stage.placing]
  · obtain ⟨s, memberOld, same, placed⟩ := exists_of_forall₂ passed member
    rw [placed, stage.placed s memberOld, stage.selects_eq passes fresh s memberOld,
      decide_eq_true_iff, same.placing.group, or_comm]
    simp only [mem_cons, exists_eq_or_imp]

theorem LaidOut.next (laid : LaidOut original done total result)
    (bounds : groupBounds original group = ⟨total, groupEnd group total original⟩)
    (fits : groupEnd group total original < 2 ^ 32) :
    LaidOut original (group :: done) (groupEnd group total original)
      (layoutPass mask result.1 result.2) := by
  have stage := laid.toStage
  have grows := le_groupEnd group aligned total
  have ends := groupEnd_congr group stage.placing total
  have size : result.1.toNat = total := by
    rw [stage.size, UInt32.toNat_ofNat_of_lt' (grows.trans_lt fits)]
  obtain ⟨passed, apart⟩ := layoutPass_laid size (aligned_of_same stage.placing aligned)
    (stage.selects_eq passes fresh) (ends ▸ fits)
  rw [ends] at passed
  refine ⟨stage.next passes fresh aligned, fun after member one found here => ?_,
    fun after member placed => ?_, apart laid.before laid.apart⟩
  · obtain ⟨_, memberOld, step⟩ := exists_of_forall₂ passed member
    cases step with
    | skipped other =>
      rcases mem_cons.mp found with rfl | earlier
      · exact absurd here other
      · exact laid.bounds _ memberOld one earlier here
    | given there place low high =>
      obtain rfl : group = one := Option.some.inj (there.symm.trans here)
      rw [bounds]
      exact ⟨low, high⟩
  · obtain ⟨_, memberOld, step⟩ := exists_of_forall₂ passed member
    cases step with
    | skipped => exact (laid.before _ memberOld placed).trans grows
    | given _ _ _ high => exact high

end

/-- A pass that selects nothing changes nothing. -/
theorem layoutPass_none (size : UInt32) (none : ∀ s ∈ sechdrs, selects mask s = false) :
    Xlinux.layoutPass mask size sechdrs = (size, sechdrs) := by
  induction sechdrs with
  | nil => rfl
  | cons s rest ih =>
    obtain ⟨first, others⟩ := forall_mem_cons.mp none
    rw [layoutPass, first, ih others]
    rfl

theorem ElfShdr.group_cases {s : ElfShdr} (alloc : s.shFlags &&& shfAlloc ≠ 0) :
    ∃ group ∈ [SectionGroup.writable, .readOnly, .executable], s.group = some group := by
  rw [ElfShdr.group, if_neg alloc]
  split_ifs
  · exact ⟨.executable, by decide, rfl⟩
  · exact ⟨.readOnly, by decide, rfl⟩
  · exact ⟨.writable, by decide, rfl⟩

/-- Nothing is left for the last pass. -/
theorem Stage.layoutPass_last
    (stage : Stage original [.writable, .readOnly, .executable] total result) :
    layoutPass (shfAlloc, 0) result.1 result.2 = result := by
  refine layoutPass_none _ fun s member => decide_eq_false fun ⟨alloc, _, free⟩ => ?_
  exact (stage.placed s member).mpr (ElfShdr.group_cases ((flag_alloc _).mp alloc)) free

theorem passes_executable : Passes (shfExecinstr ||| shfAlloc, 0) .executable [] := fun s => by
  rw [flagsMatch, Bitmap.and_or_eq_mask_iff, flag_exec, flag_alloc, ElfShdr.group]
  split_ifs <;> simp [*]

theorem passes_readOnly : Passes (shfAlloc, shfWrite) .readOnly [.executable] := fun s => by
  rw [flagsMatch, flag_alloc, ElfShdr.group]
  split_ifs <;> simp [*]

theorem passes_writable : Passes (shfWrite ||| shfAlloc, 0) .writable [.readOnly, .executable] :=
  fun s => by
  rw [flagsMatch, Bitmap.and_or_eq_mask_iff, flag_write, flag_alloc, ElfShdr.group]
  split_ifs <;> simp [*]

end Passes

theorem stage_start (sechdrs : List ElfShdr) :
    Stage sechdrs [] 0 (0, sechdrs.map fun s => { s with shEntsize := noPlace }) := by
  refine ⟨rfl, forall₂_map_right_iff.mpr (forall₂_same.mpr fun _ _ => rfl), fun s member => ?_⟩
  obtain ⟨_, -, rfl⟩ := mem_map.mp member
  exact iff_of_false (fun placed => placed rfl) nofun

/-- `layout_sections` places every section with `SHF_ALLOC`, whatever the sizes. -/
theorem layoutSections_stage {sechdrs : List ElfShdr} (aligned : ∀ s ∈ sechdrs, s.Aligned) :
    Stage sechdrs [.writable, .readOnly, .executable] (totalSize sechdrs)
      ((layoutSections sechdrs).1.size, (layoutSections sechdrs).2) := by
  have text := (stage_start sechdrs).next passes_executable not_mem_nil aligned
  have ro := text.next passes_readOnly (by decide) aligned
  have all := ro.next passes_writable (by decide) aligned
  show Stage _ _ _ (layoutPass (shfAlloc, 0) _ _)
  rw [all.layoutPass_last]
  exact all

/-- What `layout_sections` gives for some sections. -/
structure LayoutOf (sechdrs : List ElfShdr) (total : Nat) (result : ModuleLayout × List ElfShdr) :
    Prop where
  laid : LaidOut sechdrs [.writable, .readOnly, .executable] total (result.1.size, result.2)
  size : result.1.size.toNat = total
  roSize : result.1.roSize.toNat = (groupBounds sechdrs .readOnly).stop
  textSize : result.1.textSize.toNat = (groupBounds sechdrs .executable).stop
  text_le : (groupBounds sechdrs .executable).stop ≤ (groupBounds sechdrs .readOnly).stop
  ro_le : (groupBounds sechdrs .readOnly).stop ≤ total

/-- `layout_sections` places every section with `SHF_ALLOC` in the bounds of its group, and no
two of them overlap. -/
theorem layoutSections_laidOut {sechdrs : List ElfShdr} (aligned : ∀ s ∈ sechdrs, s.Aligned)
    (fits : totalSize sechdrs < 2 ^ 32) :
    LayoutOf sechdrs (totalSize sechdrs) (layoutSections sechdrs) := by
  have text_le : (groupBounds sechdrs .executable).stop ≤ (groupBounds sechdrs .readOnly).stop :=
    le_groupEnd .readOnly aligned _
  have ro_le : (groupBounds sechdrs .readOnly).stop ≤ totalSize sechdrs :=
    le_groupEnd .writable aligned _
  have ro_fits := ro_le.trans_lt fits
  have text_fits := text_le.trans_lt ro_fits
  have stage := stage_start sechdrs
  have none : ∀ s ∈ sechdrs.map fun s => ({ s with shEntsize := noPlace } : ElfShdr), ¬s.Placed :=
    fun s member placed => by simpa using (stage.placed s member).mp placed
  have start : LaidOut sechdrs [] 0 _ :=
    ⟨stage, nofun, fun s member placed => (none s member placed).elim,
    pairwise_of_forall_mem_list fun s member _ _ placed => (none s member placed).elim⟩
  have text := start.next passes_executable not_mem_nil aligned rfl text_fits
  have ro := text.next passes_readOnly (by decide) aligned rfl ro_fits
  have all := ro.next passes_writable (by decide) aligned rfl fits
  have last := all.layoutPass_last
  refine ⟨?_, ?_, ?_, ?_, text_le, ro_le⟩
  · show LaidOut _ _ _ (layoutPass (shfAlloc, 0) _ _)
    rw [last]
    exact all
  · exact (congrArg UInt32.toNat (layoutSections_stage aligned).size).trans
      (UInt32.toNat_ofNat_of_lt' fits)
  · exact (congrArg UInt32.toNat ro.size).trans (UInt32.toNat_ofNat_of_lt' ro_fits)
  · exact (congrArg UInt32.toNat text.size).trans (UInt32.toNat_ofNat_of_lt' text_fits)

end Xlinux
