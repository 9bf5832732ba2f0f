/-
This file says when memory holds an array: the head and the slots have the words
of a radix tree, and every node knows its level, its parent and its offset there.
The cells of an array are those of a place and of the tree at the place.
-/

import Xlinux.Xarray.Nodes
import Xlinux.Lib.Cells
import Xlinux.Lib.Ensures
import Xlinux.Lib.Radix

namespace Xlinux

open Cells Radix UInt64
open Function

/-! ### Words -/

/-- Where a node may be: the address can be told from `NULL`, and with its second bit set from an
error and from the few small internal entries. -/
def XaUsable (ptr : UInt64) : Prop := ptr &&& 3 = 0 ∧ 4096 ≤ ptr

instance : DecidablePred XaUsable := fun ptr =>
  inferInstanceAs (Decidable (ptr &&& 3 = 0 ∧ 4096 ≤ ptr))

/-- A pointer that can be stored. -/
abbrev XaEntry := { entry : UInt64 // entry ≠ 0 ∧ xaIsInternal entry = false }

/-- The tree of an array. -/
abbrev XaTree := Radix.Slot 64 UInt64 XaEntry

abbrev XaFrame := Radix.Frame 64 UInt64 XaEntry

section Words

variable {ptr : UInt64}

theorem XaUsable.ne_zero (usable : XaUsable ptr) : ptr ≠ 0 := by
  rintro rfl
  exact absurd usable.2 (by decide)

theorem toNat_xaMkNode (free : ptr &&& 3 = 0) : (xaMkNode ptr).toNat = ptr.toNat + 2 := by
  have low : ptr.toNat % 2 ^ 2 = 0 := by
    rw [← toNat_and_mask ptr (show (3 : UInt64).toNat = 2 ^ 2 - 1 from rfl), free]
    rfl
  have split := Nat.div_add_mod ptr.toNat (2 ^ 2)
  rw [low, add_zero] at split
  rw [xaMkNode, UInt64.toNat_or, show (2 : UInt64).toNat = 2 from rfl, ← split,
    Nat.two_pow_add_eq_or_of_lt (by decide)]

theorem xaMkNode_and (free : ptr &&& 3 = 0) : xaMkNode ptr &&& 3 = 2 := by
  rw [xaMkNode, or_and_distrib_word, free]
  rfl

theorem XaUsable.xaIsNode (usable : XaUsable ptr) : xaIsNode (xaMkNode ptr) = true := by
  have above : (4096 : UInt64) < xaMkNode ptr := by
    rw [lt_iff_toNat_lt, toNat_xaMkNode usable.1]
    exact Nat.lt_add_right_iff_pos.mpr (by decide) |>.trans_le' (le_iff_toNat_le.mp usable.2)
  rw [Xlinux.xaIsNode, xaIsInternal, xaMkNode_and usable.1]
  simpa using above

theorem XaUsable.xaToNode (usable : XaUsable ptr) : xaToNode (xaMkNode ptr) = ptr := by
  apply UInt64.toNat_inj.mp
  rw [Xlinux.xaToNode, UInt64.toNat_sub_of_le, toNat_xaMkNode usable.1]
  · rfl
  · rw [le_iff_toNat_le, toNat_xaMkNode usable.1]
    exact Nat.le_add_left _ _

theorem XaUsable.xaMkNode_ne_zero (usable : XaUsable ptr) : xaMkNode ptr ≠ 0 := by
  intro zero
  have bits := xaMkNode_and usable.1
  rw [zero] at bits
  exact absurd bits (by decide)

theorem XaUsable.xasTop (usable : XaUsable ptr) : xasTop ptr = false := by
  rw [Xlinux.xasTop, decide_eq_false_iff_not, UInt64.not_le]
  exact UInt64.lt_of_lt_of_le (by decide) usable.2

theorem XaEntry.xaIsNode (entry : XaEntry) : xaIsNode entry.1 = false := by
  rw [Xlinux.xaIsNode, entry.2.2, Bool.false_and]

end Words

/-! ### Digits of an index -/

section Digits

variable {index : UInt64} {level : Nat}

variable (small : level ≤ 10)

include small

theorem toNat_shiftRight_six_mul :
    (index >>> UInt64.ofNat (6 * level)).toNat = index.toNat / 64 ^ level := by
  have fits : 6 * level < 64 := by omega
  rw [UInt64.toNat_shiftRight, toNat_ofNat_of_lt' (fits.trans (by decide)),
    Nat.mod_eq_of_lt fits, Nat.shiftRight_eq_div_pow, pow_mul]
  rfl

theorem shiftRight_gt_iff :
    index >>> UInt64.ofNat (6 * level) > xaChunkMask ↔ 64 ^ (level + 1) ≤ index.toNat := by
  rw [gt_iff_lt, lt_iff_toNat_lt, toNat_shiftRight_six_mul small,
    show xaChunkMask.toNat = 63 from rfl, Nat.lt_iff_add_one_le,
    Nat.le_div_iff_mul_le (by positivity), pow_succ']

theorem gt_maxIndex_iff :
    index > (xaChunkSize <<< UInt64.ofNat (6 * level)) - 1 ↔ 64 ^ (level + 1) ≤ index.toNat := by
  have bound := index.toNat_lt
  have last : ((xaChunkSize <<< UInt64.ofNat (6 * level)) - 1).toNat + 1 =
      min (64 ^ (level + 1)) (2 ^ 64) := by
    interval_cases level <;> decide
  rw [gt_iff_lt, lt_iff_toNat_lt, Nat.lt_iff_add_one_le, last,
    min_le_iff, or_iff_left (not_le.mpr bound)]

end Digits

/-! ### The cells of an array -/

/-- The word in a slot. -/
def slotWord : XaTree → UInt64
  | .empty => 0
  | .entry found => found.1
  | .node ptr _ => xaMkNode ptr

/-- The cells of a tree whose root is in a slot of a node. -/
def slotCells : Nat → UInt64 → Nat → XaTree → Multiset (UInt64 × XaNode)
  | level + 1, parent, offset, .node ptr slots =>
    cell ptr ⟨6 * level, offset, parent, fun digit => slotWord (slots digit)⟩ +
      ∑ digit : Fin 64, slotCells level ptr digit (slots digit)
  | _, _, _, _ => 0

/-- The node that a place is in, and the offset of the place there. -/
def xaNodeAt : List XaFrame → UInt64
  | [] => 0
  | frame :: _ => frame.addr

def xaOffsetAt : List XaFrame → Nat
  | [] => 0
  | frame :: _ => frame.digit

/-- The pointer to the slot of a place. -/
def slotAt : List XaFrame → XaSlot
  | [] => .head
  | frame :: _ => .slot frame.addr frame.digit

/-- The word in the head of an array with a word at a place. -/
def headWord : List XaFrame → UInt64 → UInt64
  | [], hole => hole
  | frame :: rest, _ => headWord rest (xaMkNode frame.addr)

/-- The cells around a place that has a word. -/
def xaFrameCells : Nat → List XaFrame → UInt64 → Multiset (UInt64 × XaNode)
  | _, [], _ => 0
  | level, frame :: rest, hole =>
    cell frame.addr ⟨6 * level, xaOffsetAt rest, xaNodeAt rest,
        update (fun digit => slotWord (frame.slots digit)) frame.digit hole⟩ +
      (∑ digit ∈ Finset.univ.erase frame.digit,
        slotCells level frame.addr digit (frame.slots digit) +
        xaFrameCells (level + 1) rest (xaMkNode frame.addr))

section Cells

variable {level offset : Nat} {parent : UInt64} {slot : XaTree} {frame : XaFrame}
  {frames : List XaFrame}

@[simp]
theorem slotCells_empty : slotCells level parent offset .empty = 0 := by
  cases level <;> rfl

@[simp]
theorem slotCells_entry (found : XaEntry) : slotCells level parent offset (.entry found) = 0 := by
  cases level <;> rfl

theorem slotCells_bare (ptr : UInt64) : slotCells (level + 1) parent offset (.bare ptr) =
    cell ptr ⟨6 * level, offset, parent, fun _ => 0⟩ := by
  rw [Slot.bare, slotCells, Finset.sum_eq_zero fun _ _ => slotCells_empty]
  rfl

theorem sum_slotCells_update (ptr : UInt64) (slots : Fin 64 → XaTree) (digit : Fin 64) :
    ∑ other : Fin 64, slotCells level ptr other (update slots digit slot other) =
      ∑ other ∈ Finset.univ.erase digit, slotCells level ptr other (slots other) +
        slotCells level ptr digit slot := by
  rw [← Finset.sum_erase_add _ _ (Finset.mem_univ digit), update_self]
  congr 1
  refine Finset.sum_congr rfl fun other member => ?_
  rw [update_of_ne (Finset.ne_of_mem_erase member)]

theorem slotCells_plug : slotCells (level + 1) parent offset (frame.plug slot) =
    cell frame.addr ⟨6 * level, offset, parent,
        update (fun digit => slotWord (frame.slots digit)) frame.digit (slotWord slot)⟩ +
      (∑ digit ∈ Finset.univ.erase frame.digit,
          slotCells level frame.addr digit (frame.slots digit) +
        slotCells level frame.addr frame.digit slot) := by
  have words : (fun other => slotWord (update frame.slots frame.digit slot other)) = _ :=
    funext fun other => apply_update (fun _ => slotWord) frame.slots frame.digit slot other
  rw [Frame.plug, slotCells, words, sum_slotCells_update]

theorem slotCells_fill : slotCells (level + frames.length) 0 0 (fill frames slot) =
    xaFrameCells level frames (slotWord slot) +
      slotCells level (xaNodeAt frames) (xaOffsetAt frames) slot := by
  induction frames generalizing level slot with
  | nil => rw [fill, xaFrameCells, zero_add, xaNodeAt, xaOffsetAt, List.length_nil, add_zero]
  | cons frame rest ih =>
    rw [List.length_cons, ← add_assoc, add_right_comm, fill, ih,
      slotCells_plug, xaFrameCells]
    show xaFrameCells (level + 1) rest (xaMkNode frame.addr) + _ = _
    abel

theorem slotWord_fill : slotWord (fill frames slot) = headWord frames (slotWord slot) := by
  induction frames generalizing slot with
  | nil => rfl
  | cons frame rest ih => exact ih

end Cells

/-! ### An array in memory -/

/-- Memory has the tree of an array, and there are other nodes to allocate. -/
structure XaHolds (world : XaWorld) (level : Nat) (tree : XaTree) : Prop where
  head : world.array.xaHead = slotWord tree
  owns : Owns XaUsable world.array.nodes (slotCells level 0 0 tree)
  fits : tree.Fits level
  nodup : world.free.Nodup
  spare : ∀ ptr ∈ world.free, XaUsable ptr ∧ ptr ∉ (slotCells level 0 0 tree).map Prod.fst

/-- The state of the operation has walked to a place. -/
def XaWorld.walkedTo (world : XaWorld) (frames : List XaFrame) : XaWorld :=
  { world with xas := { world.xas with xaNode := xaNodeAt frames, xaOffset := xaOffsetAt frames } }

section Steps

variable {world : XaWorld} {level total : Nat} {tree slot : XaTree} {frames : List XaFrame}
  {ptr : UInt64} {slots : Fin 64 → XaTree} {key : Nat}

namespace XaHolds

variable (has : XaHolds world total tree)

include has

theorem congr {other : XaWorld} (array : other.array = world.array) (free : other.free = world.free)
    : XaHolds other total tree where
  head := array ▸ has.head
  owns := array ▸ has.owns
  fits := has.fits
  nodup := free ▸ has.nodup
  spare := free ▸ has.spare

section

variable (leads : Leads key total tree level frames slot)

include leads

theorem owns_place :
    Owns XaUsable world.array.nodes (xaFrameCells level frames (slotWord slot) +
      slotCells level (xaNodeAt frames) (xaOffsetAt frames) slot) := by
  rw [← slotCells_fill, leads.depth, leads.tree]
  exact has.owns

theorem head_place :
    world.array.xaHead = headWord frames (slotWord slot) := by
  rw [has.head, ← leads.tree, slotWord_fill]

theorem fits_place : slot.Fits level := by
  have fits : (fill frames slot).Fits (level + frames.length) := by
    rw [leads.depth, leads.tree]
    exact has.fits
  exact fits_of_fill fits

end

theorem read (leads : Leads key total tree (level + 1) frames (.node ptr slots)) :
    XaUsable ptr ∧ world.array.nodes ptr =
      ⟨6 * level, xaOffsetAt frames, xaNodeAt frames, fun digit => slotWord (slots digit)⟩ := by
  have owns := has.owns_place leads
  rw [slotCells, add_left_comm] at owns
  exact ⟨owns.usable_addr, owns.read⟩

end XaHolds

theorem XaHolds.read_root (holds : XaHolds world (level + 1) (.node ptr slots)) :
    XaUsable ptr ∧
      world.array.nodes ptr = ⟨6 * level, 0, 0, fun digit => slotWord (slots digit)⟩ := by
  have leads : Leads 0 (level + 1) (Slot.node ptr slots) (level + 1) [] (Slot.node ptr slots) :=
    leads_root (by positivity)
  exact holds.read leads

end Steps

end Xlinux
