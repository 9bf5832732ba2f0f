/-
This file proves what the operations on the areas of a process leave alone. To
link an area changes the links of the list and the tree; what an area maps is
changed for the new area only.
-/

import Xlinux.Mmap.Calls

namespace Xlinux

open Hoare

/-- What an area maps: everything but its links in the list. -/
def VmAreaStruct.contents (area : VmAreaStruct) : VmAreaStruct :=
  { area with vmPrev := 0, vmNext := 0 }

/-- Every area maps what it mapped before. -/
def SameContents (mm after : MmStruct) : Prop :=
  ∀ one, (after.areas one).contents = (mm.areas one).contents

theorem range_of_contents {area other : VmAreaStruct} (same : area.contents = other.contents) :
    area.vmStart = other.vmStart ∧ area.vmEnd = other.vmEnd := by
  have start := congrArg VmAreaStruct.vmStart same
  have stop := congrArg VmAreaStruct.vmEnd same
  exact ⟨start, stop⟩

section Frame

variable {mm : MmStruct} {vma : UInt64} {links : VmaLinks} {β : Type} {code : RbM UInt64 β}

theorem ensures_onMmRb_areas : Ensures (onMmRb code) mm fun _ after => after.areas = mm.areas := by
  intro result after ran
  rw [onMmRb] at ran
  obtain ⟨⟨_, _⟩, -, rest⟩ := Kernel.bind_ok.mp ran
  cases rest
  rfl

theorem ensures_vmaUpdateNext_areas :
    Ensures (vmaUpdateNext vma) mm fun _ after => after.areas = mm.areas := by
  rw [vmaUpdateNext]
  refine ensures_get ?_
  dsimp only
  split
  · exact ensures_get ensures_onMmRb_areas
  · exact ensures_modify_last rfl

/-- The tree is changed without the areas. -/
theorem ensures_vmaLinkRb_areas :
    Ensures (vmaLinkRb vma links) mm fun _ after => after.areas = mm.areas := by
  rw [vmaLinkRb]
  refine ensures_vmaUpdateNext_areas.bind fun _ first toFirst => ?_
  refine ensures_onMmRb_areas.bind fun _ second toSecond => ?_
  refine ensures_onMmRb_areas.bind fun _ third toThird => ?_
  refine (ensures_get ensures_onMmRb_areas).bind fun _ fourth toFourth => ?_
  refine (ensures_get ensures_onMmRb_areas).mono fun _ last toLast => ?_
  rw [toLast, toFourth, toThird, toSecond, toFirst]

/-- Linking changes the links only. -/
theorem ensures_vmaLink_contents :
    Ensures (vmaLink vma links) mm fun _ after => SameContents mm after := by
  rw [vmaLink]
  refine returns_vmaLinkList.ensures.bind fun _ listed same => ?_
  refine ensures_vmaLinkRb_areas.mono fun _ after kept => ?_
  intro one
  rw [kept, same]
  simp only [linkAreas_apply, VmAreaStruct.contents]

/-- `insert_vm_struct` gives an area without a file its page number, and keeps the others. -/
theorem ensures_insertVmStruct_contents :
    Ensures (insertVmStruct vma) mm fun _ after =>
      ((after.areas vma).vmStart = (mm.areas vma).vmStart ∧
        (after.areas vma).vmEnd = (mm.areas vma).vmEnd) ∧
      ∀ one, one ≠ vma → (after.areas one).contents = (mm.areas one).contents := by
  rw [insertVmStruct]
  refine ensures_get ?_
  have found : Ensures (findVmaLinks (mm.areas vma).vmStart (mm.areas vma).vmEnd) mm fun _ after =>
      after.areas = mm.areas := ensures_get ensures_onMmRb_areas
  refine found.bind fun result second same => ?_
  cases result with
  | none =>
    refine ensures_pure ?_
    rw [same]
    exact ⟨⟨rfl, rfl⟩, fun _ _ => rfl⟩
  | some links =>
    dsimp only
    split
    · refine ensures_modify ((ensures_vmaLink_contents.bind_pure (0 : Int)).mono ?_)
      rintro _ after ⟨-, kept⟩
      rw [SameContents] at kept
      dsimp only at kept
      have atVma := kept vma
      rw [write_self, same] at atVma
      have range := range_of_contents atVma
      refine ⟨range, fun one different => ?_⟩
      have atOne := kept one
      rwa [write_of_ne different, same] at atOne
    · refine (ensures_vmaLink_contents.bind_pure (0 : Int)).mono ?_
      rintro _ after ⟨-, kept⟩
      rw [SameContents, same] at kept
      exact ⟨range_of_contents (kept vma), fun one _ => kept one⟩

end Frame

end Xlinux
