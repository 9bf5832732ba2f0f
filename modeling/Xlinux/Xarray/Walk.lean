/-
This file is about `xas_load`: it walks from the head of an array down to the
slot of an index, or to an empty slot on the way there, and what it returns is
the entry of the index.
-/

import Xlinux.Xarray.Shape

namespace Xlinux

open Cells Radix Hoare

variable {world : XaWorld} {level total : Nat} {tree slot : XaTree} {frames : List XaFrame}
  {ptr : UInt64} {slots : Fin 64 → XaTree}

/-! ### One level down -/

theorem readXaNode_ok (usable : XaUsable ptr) :
    readXaNode ptr world = .ok (world.array.nodes ptr, world) := by
  rw [readXaNode, if_neg usable.ne_zero]

theorem xaEntry_ok (usable : XaUsable ptr) (digit : Fin 64) :
    xaEntry ptr digit world = .ok ((world.array.nodes ptr).slots digit, world) := by
  rw [xaEntry, bind_of_ok (readXaNode_ok usable), dif_pos digit.isLt]
  rfl

/-- `xas_descend` at a place with a node. -/
theorem XaHolds.xasDescend (has : XaHolds world total tree) (top : total ≤ 11)
    (leads : Leads world.xas.xaIndex.toNat total tree (level + 1) frames (.node ptr slots)) :
    Xlinux.xasDescend ptr world = .ok (slotWord (slots (digit 64 level world.xas.xaIndex.toNat)),
        world.walkedTo (⟨ptr, slots, digit 64 level world.xas.xaIndex.toNat⟩ :: frames)) := by
  obtain ⟨usable, read⟩ := has.read leads
  have small : level ≤ 10 := by
    have depth := leads.depth
    omega
  have offset : getOffset world.xas.xaIndex (world.array.nodes ptr) =
      digit 64 level world.xas.xaIndex.toNat := by
    rw [getOffset, read, toNat_and_mask _ (show xaChunkMask.toNat = 2 ^ 6 - 1 from rfl),
      toNat_shiftRight_six_mul small]
    rfl
  have byte : (digit 64 level world.xas.xaIndex.toNat : Nat) % 256 =
      digit 64 level world.xas.xaIndex.toNat :=
    Nat.mod_eq_of_lt ((Fin.is_lt _).trans (by decide))
  rw [Xlinux.xasDescend, get_bind, bind_of_ok (readXaNode_ok usable), offset,
    bind_of_ok (xaEntry_ok usable _), read, byte]
  rfl

/-! ### Down to the slot -/

/-- There is no node in a slot. -/
def Ends (slot : XaTree) : Prop := ∀ ptr slots, slot ≠ .node ptr slots

theorem xaIsNode_slotWord (ends : Ends slot) : xaIsNode (slotWord slot) = false := by
  cases slot with
  | empty => rfl
  | entry found => exact found.xaIsNode
  | node ptr slots => exact absurd rfl (ends ptr slots)

variable (frames) in
theorem XaHolds.walkedTo (has : XaHolds world total tree) :
    XaHolds (world.walkedTo frames) total tree :=
  has.congr rfl rfl

/-- The loop of `xas_load` goes on from a place to where there is no node. -/
theorem XaHolds.xasLoadLoop (has : XaHolds world total tree) (top : total ≤ 11)
    (order : world.xas.xaShift = 0) {turns : Nat} (enough : level < turns)
    (leads : Leads world.xas.xaIndex.toNat total tree level frames slot) :
    ∃ below inner last, Leads world.xas.xaIndex.toNat total tree below inner last ∧ Ends last ∧
      Xlinux.xasLoadLoop turns (slotWord slot) (world.walkedTo frames) =
        .ok (slotWord last, world.walkedTo inner) := by
  induction turns generalizing level frames slot with
  | zero => cases enough
  | succ turns ih =>
    by_cases ends : Ends slot
    · refine ⟨level, frames, slot, leads, ends, ?_⟩
      rw [xasLoadLoop, xaIsNode_slotWord ends]
      rfl
    · obtain ⟨ptr, slots, rfl⟩ : ∃ ptr slots, slot = .node ptr slots := by
        simpa [Ends] using ends
      cases level with
      | zero => exact (has.fits_place leads).elim
      | succ level =>
        obtain ⟨usable, read⟩ := (has.walkedTo frames).read leads
        have descended := (has.walkedTo frames).xasDescend top leads
        have shifts : ¬ (world.walkedTo frames).xas.xaShift > 6 * level :=
          not_lt.mpr (order.trans_le (Nat.zero_le _))
        rw [xasLoadLoop, slotWord, usable.xaIsNode, if_pos rfl, usable.xaToNode, get_bind,
          bind_of_ok (readXaNode_ok usable), read, if_neg shifts, bind_of_ok descended]
        cases level with
        | zero =>
          refine ⟨0, _, _, leads.down, ?_, rfl⟩
          intro inner below same
          exact (same ▸ has.fits_place leads.down : (Slot.node inner below).Fits 0)
        | succ level =>
          obtain ⟨below, inner, last, found, atEnd, ran⟩ :=
            ih (Nat.lt_of_succ_lt_succ enough) leads.down
          refine ⟨below, inner, last, found, atEnd, ?_⟩
          exact ran

/-! ### The whole array -/

/-- Memory has an array. The tree of an empty array has no levels, and eleven levels are enough
for all indices. -/
structure XaKept (world : XaWorld) (total : Nat) (tree : XaTree) : Prop extends
    XaHolds world total tree where
  rooted : tree = .empty → total = 0
  top : total ≤ 11

theorem XaKept.outOfBounds (kept : XaKept world total tree) :
    Xlinux.outOfBounds world = decide (64 ^ total ≤ world.xas.xaIndex.toNat) := by
  have single : decide (64 ^ 0 ≤ world.xas.xaIndex.toNat) = decide (world.xas.xaIndex ≠ 0) := by
    rw [decide_eq_decide, pow_zero, Nat.one_le_iff_ne_zero, ne_eq, ne_eq, ← UInt64.toNat_inj]
    rfl
  rw [Xlinux.outOfBounds, kept.head]
  cases tree with
  | empty => rw [kept.rooted rfl, single, slotWord, if_neg nofun]
  | entry found =>
    rw [fits_entry.mp kept.fits, single, slotWord, found.xaIsNode, if_neg nofun]
  | node ptr slots =>
    cases total with
    | zero => exact kept.fits.elim
    | succ level =>
      obtain ⟨usable, read⟩ := kept.read_root
      rw [slotWord, usable.xaIsNode, if_pos rfl, usable.xaToNode, read,
        decide_eq_decide.mpr (shiftRight_gt_iff (Nat.le_of_succ_le_succ kept.top))]

/-- The word of an entry. -/
def entryWord : Option XaEntry → UInt64
  | none => 0
  | some found => found.1

theorem entryWord_get (ends : Ends slot) (fits : slot.Fits level) (key : Nat) :
    entryWord (slot.get level key) = slotWord slot := by
  cases slot with
  | empty =>
    rw [get_empty]
    rfl
  | entry found =>
    rw [fits_entry.mp fits]
    rfl
  | node ptr slots => exact absurd rfl (ends ptr slots)

/-- A state that is to start at the head of the array. -/
structure Starts (xas : XaState) : Prop where
  shift : xas.xaShift = 0
  offset : xas.xaOffset = 0
  invalid : xasInvalid xas = true
  noError : xasError xas = false

theorem starts_xaStateOf (index : UInt64) : Starts (xaStateOf index) :=
  ⟨rfl, rfl, show decide (xasRestart &&& 3 ≠ 0) = true by decide,
    show xaIsErr xasRestart = false by decide⟩

/-- The state of the operation has found that its index is not in the array. -/
def XaWorld.outside (world : XaWorld) : XaWorld :=
  { world with xas := { world.xas with xaNode := xasBounds } }

theorem xasInvalid_outside : xasInvalid world.outside.xas = true :=
  show decide (xasBounds &&& 3 ≠ 0) = true by decide

theorem xasError_outside : xasError world.outside.xas = false :=
  show xaIsErr xasBounds = false by decide

/-- `xas_load` finds that the index is not in the array, or walks to its slot. -/
theorem XaKept.xasLoad (kept : XaKept world total tree) (starts : Starts world.xas) :
    64 ^ total ≤ world.xas.xaIndex.toNat ∧ Xlinux.xasLoad world = .ok (0, world.outside) ∨
      world.xas.xaIndex.toNat < 64 ^ total ∧ ∃ below inner last,
        Leads world.xas.xaIndex.toNat total tree below inner last ∧ Ends last ∧
          Xlinux.xasLoad world = .ok (slotWord last, world.walkedTo inner) := by
  by_cases inside : world.xas.xaIndex.toNat < 64 ^ total
  · refine .inr ⟨inside, ?_⟩
    have bounds : Xlinux.outOfBounds world = false := by
      rw [kept.outOfBounds, decide_eq_false (not_le.mpr inside)]
    have start : xasStart world = .ok (slotWord tree, world.walkedTo []) := by
      rw [xasStart, get_bind, starts.invalid, starts.noError, bounds, ← kept.head, XaWorld.walkedTo,
        xaOffsetAt, ← starts.offset]
      rfl
    have enough : total < maxTurns := kept.top.trans_lt (by decide)
    obtain ⟨below, inner, last, found, ends, ran⟩ :=
      kept.xasLoadLoop kept.top starts.shift enough (leads_root inside)
    exact ⟨below, inner, last, found, ends, (bind_of_ok start).trans ran⟩
  · have beyond := Nat.le_of_not_lt inside
    refine .inl ⟨beyond, ?_⟩
    have start : xasStart world = .ok (0, world.outside) := by
      rw [xasStart, get_bind, starts.invalid, starts.noError,
        kept.outOfBounds, decide_eq_true beyond]
      rfl
    exact bind_of_ok start

theorem XaKept.xasLoad_eq (kept : XaKept world total tree) (starts : Starts world.xas) :
    ∃ after, Xlinux.xasLoad world =
      .ok (entryWord (tree.lookup total world.xas.xaIndex.toNat), after) := by
  rcases kept.xasLoad starts with ⟨beyond, ran⟩ | ⟨inside, _, _, _, leads, ends, ran⟩
  · rw [Slot.lookup, if_neg (not_lt.mpr beyond)]
    exact ⟨_, ran⟩
  · rw [Slot.lookup, if_pos inside, leads.get_eq inside, entryWord_get ends (kept.fits_place leads)]
    exact ⟨_, ran⟩

theorem xaIsZero_entryWord (found : Option XaEntry) : xaIsZero (entryWord found) = false := by
  cases found with
  | none => decide
  | some found =>
    rw [xaIsZero, decide_eq_false_iff_not]
    intro same
    have internal := found.2.2
    rw [show found.1 = _ from same] at internal
    exact absurd internal (by decide)

theorem XaKept.congr {other : XaWorld} (kept : XaKept world total tree)
    (array : other.array = world.array) (free : other.free = world.free) :
    XaKept other total tree :=
  ⟨kept.toXaHolds.congr array free, kept.rooted, kept.top⟩

/-- `xa_load` returns the entry of the index. -/
theorem XaKept.xaLoad (kept : XaKept world total tree) (index : UInt64) :
    Xlinux.xaLoad world.array index = .ok (entryWord (tree.lookup total index.toNat)) := by
  have fresh : XaKept ⟨world.array, xaStateOf index, []⟩ total tree :=
    ⟨⟨kept.head, kept.owns, kept.fits, List.nodup_nil, fun _ none => nomatch none⟩,
      kept.rooted, kept.top⟩
  obtain ⟨after, ran⟩ : ∃ after, Xlinux.xasLoad ⟨world.array, xaStateOf index, []⟩ =
      .ok (entryWord (tree.lookup total index.toNat), after) :=
    fresh.xasLoad_eq (starts_xaStateOf index)
  rw [Xlinux.xaLoad, ran]
  show Except.ok (if xaIsZero (entryWord (tree.lookup total index.toNat)) = true then _ else _) = _
  rw [xaIsZero_entryWord, if_neg nofun]

end Xlinux
