/-
This file is about `xas_store`. New nodes go above the head until the index fits,
then down from the head to the slot of the index; neither changes what the array
has. The last step writes the slot.
-/

import Xlinux.Xarray.Walk

namespace Xlinux

open Cells Radix Hoare List Nat
open Function

variable {world : XaWorld} {level total key : Nat} {tree slot : XaTree} {frames : List XaFrame}
  {frame : XaFrame} {ptr : UInt64} {slots : Fin 64 → XaTree}

/-! ### Writes -/

theorem modifyXaNode_ok (usable : XaUsable ptr) (change : XaNode → XaNode) :
    modifyXaNode ptr change world = .ok ((), { world with array := { world.array with
        nodes := update world.array.nodes ptr (change (world.array.nodes ptr)) } }) := by
  rw [modifyXaNode, if_neg usable.ne_zero]

/-- A write to the slot of a place. -/
theorem writeSlot_ok {hole : UInt64} {rest : Multiset (UInt64 × XaNode)}
    (owns : Owns XaUsable world.array.nodes (xaFrameCells level frames hole + rest))
    (head : world.array.xaHead = headWord frames hole) (word : UInt64) :
    ∃ array :
      XArray, writeSlot (slotAt frames) word world = .ok ((), { world with array := array }) ∧
      Owns XaUsable array.nodes (xaFrameCells level frames word + rest) ∧
      array.xaHead = headWord frames word := by
  cases frames with
  | nil => exact ⟨_, rfl, owns, rfl⟩
  | cons frame above =>
    rw [xaFrameCells, add_assoc] at owns
    have usable := owns.usable_addr
    refine ⟨⟨world.array.xaHead, update world.array.nodes frame.addr
      ⟨6 * level, xaOffsetAt above, xaNodeAt above,
        update (fun digit => slotWord (frame.slots digit)) frame.digit word⟩⟩, ?_, ?_, head⟩
    · rw [slotAt, writeSlot, writeNodeSlot, dif_pos frame.digit.isLt,
        modifyXaNode_ok usable, owns.read, update_idem]
    · rw [xaFrameCells, add_assoc]
      exact owns.write _

theorem map_fst_xaFrameCells (hole word : UInt64) :
    (xaFrameCells level frames hole).map Prod.fst =
      (xaFrameCells level frames word).map Prod.fst := by
  cases frames with
  | nil => rfl
  | cons frame rest => simp only [xaFrameCells, Multiset.map_add, cell, Multiset.map_singleton]

/-- The array after a change at a place. -/
theorem XaHolds.replace (holds : XaHolds world total tree)
    (leads : Leads key total tree level frames slot) {next : XaTree} {after : XaWorld}
    (owns : Owns XaUsable after.array.nodes (xaFrameCells level frames (slotWord next) +
      slotCells level (xaNodeAt frames) (xaOffsetAt frames) next))
    (head : after.array.xaHead = headWord frames (slotWord next)) (fits : next.Fits level)
    (nodup : after.free.Nodup)
    (spare : ∀ ptr ∈ after.free, ptr ∈ world.free ∧
      ptr ∉ (slotCells level (xaNodeAt frames) (xaOffsetAt frames) next).map Prod.fst) :
    XaHolds after total (fill frames next) := by
  have cells : slotCells total 0 0 (fill frames next) = xaFrameCells level frames (slotWord next) +
      slotCells level (xaNodeAt frames) (xaOffsetAt frames) next := by
    rw [← leads.depth, slotCells_fill]
  constructor
  case head => rw [head, slotWord_fill]
  case owns => exact cells ▸ owns
  case fits =>
    have before := holds.fits
    rw [← leads.tree, ← leads.depth] at before
    exact leads.depth ▸ fits_fill before fits
  case nodup => exact nodup
  case spare =>
    intro ptr member
    obtain ⟨old, outside⟩ := spare ptr member
    obtain ⟨usable, unused⟩ := holds.spare ptr old
    refine ⟨usable, ?_⟩
    rw [← leads.tree, ← leads.depth, slotCells_fill, Multiset.map_add, Multiset.mem_add,
      not_or] at unused
    rw [cells, Multiset.map_add, Multiset.mem_add, not_or, map_fst_xaFrameCells _ (slotWord slot)]
    exact ⟨unused.1, outside⟩

/-- A write to the slot of an index. -/
theorem XaHolds.writeSlot (holds : XaHolds world total tree)
    (leads : Leads key total tree 0 frames slot) {next : XaTree} (fits : next.Fits 0) :
    ∃ after, Xlinux.writeSlot (slotAt frames) (slotWord next) world = .ok ((), after) ∧
      after.xas = world.xas ∧ after.free = world.free ∧ XaHolds after total (fill frames next) := by
  have before := holds.owns_place leads
  obtain ⟨_, ran, owns, head⟩ := writeSlot_ok before (holds.head_place leads) (slotWord next)
  exact ⟨_, ran, rfl, rfl, holds.replace leads owns head fits holds.nodup
    fun ptr member => ⟨member, Multiset.notMem_zero ptr⟩⟩

/-! ### New nodes below -/

/-- The world after an allocation. -/
def XaWorld.grown (world : XaWorld) (ptr : UInt64) (rest : List UInt64) (node : XaNode) : XaWorld :=
  { world with
    array := { world.array with nodes := update world.array.nodes ptr node }
    free := rest }

section

theorem modifyXaNode_grown (usable : XaUsable ptr) (rest : List UInt64) (node : XaNode)
    (change : XaNode → XaNode) : modifyXaNode ptr change (world.grown ptr rest node) =
      .ok ((), world.grown ptr rest (change node)) := by
  rw [modifyXaNode_ok usable]
  simp only [XaWorld.grown, update_self, update_idem]

variable (holds : XaHolds world total tree)

include holds

theorem XaHolds.usable_place (leads : Leads key total tree level (frame :: frames) slot) :
    XaUsable frame.addr :=
  (holds.read leads.up).1

theorem XaHolds.valid (leads : Leads key total tree level frames slot) :
    xaNodeAt frames &&& 3 = 0 := by
  cases frames with
  | nil => rfl
  | cons frame rest => exact (holds.usable_place leads).1

theorem XaHolds.noError (leads : Leads key total tree level frames slot) :
    xasError (world.walkedTo frames).xas = false := by
  rw [xasError, show (world.walkedTo frames).xas.xaNode = xaNodeAt frames from rfl, xaIsErr,
    xaIsInternal, holds.valid leads]
  rfl

/-- `xas_alloc` fails, or gives a node that belongs to a place. -/
theorem XaHolds.xasAlloc (leads : Leads key total tree level frames slot) {shift : Nat}
    (small : shift ≤ 64) :
    Hoare.Returns (Xlinux.xasAlloc shift) (world.walkedTo frames) fun ptr after =>
      ptr = 0 ∧ xasError after.xas = true ∨ ∃ rest, world.free = ptr :: rest ∧
        after = (world.walkedTo frames).grown ptr rest
          ⟨shift, xaOffsetAt frames, xaNodeAt frames, fun _ => 0⟩ := by
  have valid : xasInvalid (world.walkedTo frames).xas = false :=
    decide_eq_false (not_not.mpr (holds.valid leads))
  refine returns_get ?_
  rw [valid, if_neg nofun]
  cases free : (world.walkedTo frames).free with
  | nil =>
    have none : allocXaNode (world.walkedTo frames) = .ok (0, world.walkedTo frames) := by
      rw [allocXaNode, free]
    refine ⟨0, _, (bind_of_ok none).trans rfl, .inl ⟨rfl, ?_⟩⟩
    exact show xaIsErr (xaError (ofCInt (-enomem))) = true by decide
  | cons ptr rest =>
    have usable := (holds.spare ptr (free ▸ mem_cons_self)).1
    have offset :
        (if (world.walkedTo frames).xas.xaNode ≠ 0 then (world.walkedTo frames).xas.xaOffset
        else clearedNode.offset) = xaOffsetAt frames := by
      cases frames with
      | nil => rfl
      | cons frame above => exact if_pos (holds.usable_place leads).ne_zero
    refine ⟨ptr, _, ?_, .inr ⟨rest, free, rfl⟩⟩
    have made : allocXaNode (world.walkedTo frames) =
        .ok (ptr, (world.walkedTo frames).grown ptr rest clearedNode) := by
      rw [allocXaNode, free]
      rfl
    rw [bind_of_ok made, if_neg usable.ne_zero, if_neg (not_lt.mpr small),
      bind_of_ok (modifyXaNode_grown usable _ _ _), offset,
      mod_eq_of_lt (small.trans_lt (by decide))]
    rfl

/-- A new node is put at an empty place. -/
theorem XaHolds.writeBare (leads : Leads key total tree (level + 1) frames .empty)
    {rest : List UInt64} (free : world.free = ptr :: rest) :
    ∃ array, Xlinux.writeSlot (slotAt frames) (xaMkNode ptr)
        (world.grown ptr rest ⟨6 * level, xaOffsetAt frames, xaNodeAt frames, fun _ => 0⟩) =
          .ok ((), { world with array := array, free := rest }) ∧
      XaHolds { world with array := array, free := rest } total (fill frames (.bare ptr)) := by
  obtain ⟨usable, unused⟩ := holds.spare ptr (free ▸ mem_cons_self)
  have nodup := holds.nodup
  rw [free, nodup_cons] at nodup
  have before := holds.owns_place leads
  rw [slotCells_empty, add_zero] at before
  rw [← leads.tree, ← leads.depth, slotCells_fill, slotCells_empty, add_zero] at unused
  have grown :=
    before.fresh usable unused ⟨6 * level, xaOffsetAt frames, xaNodeAt frames, fun _ => 0⟩
  rw [add_comm] at grown
  have head := holds.head_place leads
  let next := world.grown ptr rest ⟨6 * level, xaOffsetAt frames, xaNodeAt frames, fun _ => 0⟩
  obtain ⟨array, wrote, owns, top⟩ := @writeSlot_ok next _ _ _ _ grown head (xaMkNode ptr)
  refine ⟨array, wrote, holds.replace leads ?_ top (fun _ => fits_empty) nodup.2 ?_⟩
  · rw [slotCells_bare]
    exact owns
  · intro other member
    refine ⟨free ▸ mem_cons_of_mem ptr member, ?_⟩
    rw [slotCells_bare, cell, Multiset.map_singleton, Multiset.mem_singleton]
    rintro rfl
    exact nodup.1 member

/-- The loop of `xas_create` puts a new node at an empty place. -/
theorem XaHolds.xasCreateNode (top : total ≤ 11)
    (leads : Leads key total tree (level + 1) frames .empty) :
    Hoare.Returns (Xlinux.xasCreateNode (6 * level) 0 (slotAt frames)) (world.walkedTo frames)
      fun made after => made = none ∧ xasError after.xas = true ∨
        ∃ ptr start, made = some ptr ∧ after = start.walkedTo frames ∧ start.xas = world.xas ∧
          XaHolds start total (fill frames (.bare ptr)) := by
  have small : 6 * level ≤ 64 := by
    have depth := leads.depth
    omega
  refine (holds.xasAlloc leads small).bind ?_
  rintro ptr after (⟨rfl, error⟩ | ⟨rest, free, rfl⟩)
  · exact returns_pure (.inl ⟨rfl, error⟩)
  · have usable := (holds.spare ptr (free ▸ mem_cons_self)).1
    obtain ⟨array, wrote, held⟩ := (holds.walkedTo frames).writeBare leads free
    rw [if_neg usable.ne_zero]
    exact ⟨some ptr, _, bind_of_ok wrote,
      .inr ⟨ptr, { world with array := array, free := rest }, rfl, rfl, rfl, held.congr rfl rfl⟩⟩

end

/-- The way down to the slot of an index is there, and the array has what it had. -/
structure XaReached (index : Nat) (world : XaWorld) (total : Nat) (tree : XaTree) (after : XaWorld)
    (next : XaTree) (frames : List XaFrame) (slot : XaTree) : Prop where
  holds : XaHolds after total next
  leads : Leads index total next 0 frames slot
  xas : after.xas = world.xas
  same : ∀ key < 64 ^ total, next.get total key = tree.get total key

/-- A new node at an empty place is passed on the way. -/
theorem XaReached.of_bare {index : Nat} {start after : XaWorld} {next last : XaTree}
    {inner : List XaFrame}
    (reached : XaReached index start total (fill frames (.bare ptr)) after next inner last)
    (leads : Leads key total tree (level + 1) frames .empty) (xas : start.xas = world.xas) :
    XaReached index world total tree after next inner last := by
  refine ⟨reached.holds, reached.leads, reached.xas.trans xas, fun key small => ?_⟩
  rw [reached.same key small, ← leads.tree, ← leads.depth]
  rw [← leads.depth] at small
  by_cases here : key / 64 ^ (level + 1) = place frames
  · rw [get_fill small here, get_fill small here, get_bare, get_empty]
  · exact get_fill_of_ne _ small here

theorem XaReached.lookup {index : Nat} {after : XaWorld} {next last : XaTree} {inner : List XaFrame}
    (reached : XaReached index world total tree after next inner last) (key : Nat) :
    next.lookup total key = tree.lookup total key := by
  rw [Slot.lookup, Slot.lookup]
  split_ifs with small
  · exact reached.same key small
  · rfl

/-- The loop of `xas_create` goes one level down. -/
theorem XaHolds.xasCreateLoop_down (holds : XaHolds world total tree) (top : total ≤ 11)
    (leads : Leads world.xas.xaIndex.toNat total tree (level + 1) frames (.node ptr slots))
    (turns shift : Nat) :
    (Xlinux.xasDescend ptr >>= fun entry => get >>= fun world =>
        xasCreateLoop turns shift entry (.slot ptr world.xas.xaOffset)) world =
      xasCreateLoop turns shift (slotWord (slots (digit 64 level world.xas.xaIndex.toNat)))
        (.slot ptr (digit 64 level world.xas.xaIndex.toNat))
        (world.walkedTo (⟨ptr, slots, digit 64 level world.xas.xaIndex.toNat⟩ :: frames)) := by
  rw [bind_of_ok (holds.xasDescend top leads)]
  rfl

theorem XaUsable.xasCreateNode (usable : XaUsable ptr) (shift : Nat) (place : XaSlot) :
    xasCreateNode shift (slotWord (.node ptr slots)) place world = .ok (some ptr, world) := by
  rw [Xlinux.xasCreateNode, slotWord, if_neg usable.xaMkNode_ne_zero, usable.xaIsNode,
    usable.xaToNode]
  rfl

theorem six_mul_succ_gt {xas : XaState} (order : xas.xaShift = 0) :
    6 * (level + 1) > xas.xaShift := by
  rw [order]
  exact mul_pos (by decide) (succ_pos level)

section

theorem moveHead_ok {rest : Multiset (UInt64 × XaNode)} (fits : tree.Fits total)
    (owns : Owns XaUsable world.array.nodes (slotCells total 0 0 tree + rest)) :
    ∃ nodes, moveHead (slotWord tree) ptr world =
        .ok ((), { world with array := { world.array with nodes := nodes } }) ∧
      Owns XaUsable nodes (slotCells total ptr 0 tree + rest) := by
  cases tree with
  | empty => exact ⟨world.array.nodes, rfl, by simpa using owns⟩
  | entry found =>
    refine ⟨world.array.nodes, ?_, by simpa using owns⟩
    rw [moveHead, slotWord, found.xaIsNode]
    rfl
  | node root slots =>
    cases total with
    | zero => exact fits.elim
    | succ level =>
      rw [slotCells, add_assoc] at owns
      have usable := owns.usable_addr
      refine ⟨update world.array.nodes root
        ⟨6 * level, 0, ptr, fun digit => slotWord (slots digit)⟩, ?_, ?_⟩
      · rw [moveHead, slotWord, usable.xaIsNode, if_pos rfl, usable.xaToNode,
          modifyXaNode_ok usable, owns.read]
      · rw [slotCells, add_assoc]
        exact owns.write _

theorem map_fst_slotCells (parent other : UInt64) (offset : Nat) :
    (slotCells level parent offset slot).map Prod.fst =
      (slotCells level other offset slot).map Prod.fst := by
  cases slot with
  | empty => rw [slotCells_empty, slotCells_empty]
  | entry found => rw [slotCells_entry, slotCells_entry]
  | node ptr slots =>
    cases level with
    | zero => rfl
    | succ level => simp only [slotCells, Multiset.map_add, cell, Multiset.map_singleton]

theorem slotCells_bare_plug : slotCells (total + 1) 0 0 ((Frame.bare ptr 0).plug tree) =
    cell ptr ⟨6 * total, 0, 0, update (fun _ => 0) 0 (slotWord tree)⟩ +
      slotCells total ptr 0 tree := by
  have others : ∑ digit ∈ Finset.univ.erase (Frame.bare ptr 0 : XaFrame).digit,
      slotCells total ptr digit ((Frame.bare ptr 0 : XaFrame).slots digit) = 0 :=
    Finset.sum_eq_zero fun _ _ => slotCells_empty
  rw [slotCells_plug]
  show _ + (∑ digit ∈ Finset.univ.erase (Frame.bare ptr 0 : XaFrame).digit,
      slotCells total ptr digit ((Frame.bare ptr 0 : XaFrame).slots digit) + _) = _
  rw [others, zero_add]
  rfl

theorem le_ten_of_pow_le {index : UInt64} (beyond : 64 ^ level ≤ index.toNat) : level ≤ 10 := by
  have above := beyond.trans_lt index.toNat_lt
  rw [show 64 = 2 ^ 6 from rfl, ← Nat.pow_mul, Nat.pow_lt_pow_iff_right (by decide)] at above
  omega

theorem xasExpandShift_ok (small : level ≤ 10) {turns : Nat} (enough : 10 - level < turns) :
    ∃ shift ≤ 10, world.xas.xaIndex.toNat < 64 ^ (shift + 1) ∧
      xasExpandShift turns (6 * level) world = .ok (6 * shift, world) := by
  induction turns generalizing level with
  | zero => cases enough
  | succ turns ih =>
    have more : world.xas.xaIndex >>> UInt64.ofNat (6 * level) ≥ xaChunkSize ↔
        64 ^ (level + 1) ≤ world.xas.xaIndex.toNat := by
      rw [← shiftRight_gt_iff small, ge_iff_le, gt_iff_lt]
      rfl
    rw [xasExpandShift, get_bind]
    by_cases beyond : 64 ^ (level + 1) ≤ world.xas.xaIndex.toNat
    · have low := le_ten_of_pow_le beyond
      rw [if_pos (more.mpr beyond)]
      exact ih low (by omega)
    · rw [if_neg (more.not.mpr beyond)]
      exact ⟨level, small, Nat.lt_of_not_le beyond, rfl⟩

theorem XaHolds.of_empty (holds : XaHolds world total .empty) (levels : Nat) :
    XaHolds world levels .empty where
  head := holds.head
  owns := by
    have owns := holds.owns
    rwa [slotCells_empty] at owns ⊢
  fits := fits_empty
  nodup := holds.nodup
  spare := by
    have spare := holds.spare
    rwa [slotCells_empty] at spare ⊢

variable (holds : XaHolds world total tree)

include holds

theorem XaHolds.xasCreateLoop_node (top : total ≤ 11) (order : world.xas.xaShift = 0)
    (leads : Leads world.xas.xaIndex.toNat total tree (level + 1) frames (.node ptr slots))
    (turns : Nat) (place : XaSlot) :
    xasCreateLoop (turns + 1) (6 * (level + 1)) (slotWord (.node ptr slots)) place world =
      xasCreateLoop turns (6 * level) (slotWord (slots (digit 64 level world.xas.xaIndex.toNat)))
        (.slot ptr (digit 64 level world.xas.xaIndex.toNat))
        (world.walkedTo (⟨ptr, slots, digit 64 level world.xas.xaIndex.toNat⟩ :: frames)) := by
  rw [xasCreateLoop, get_bind, if_pos (six_mul_succ_gt order),
    bind_of_ok ((holds.read leads).1.xasCreateNode _ _)]
  exact holds.xasCreateLoop_down top leads turns _

/-- The loop of `xas_create` goes on from a place to the slot of the index. -/
theorem XaHolds.xasCreateLoop (top : total ≤ 11) (order : world.xas.xaShift = 0) {turns : Nat}
    (enough : level < turns) (leads : Leads world.xas.xaIndex.toNat total tree level frames slot) :
    Hoare.Returns (Xlinux.xasCreateLoop turns (6 * level) (slotWord slot) (slotAt frames))
      (world.walkedTo frames) fun word after => xasError after.xas = true ∨
        ∃ start next inner last, word = slotWord last ∧ after = start.walkedTo inner ∧
          XaReached world.xas.xaIndex.toNat world total tree start next inner last := by
  induction turns generalizing world tree level frames slot with
  | zero => cases enough
  | succ turns ih =>
    cases level with
    | zero =>
      refine returns_get ?_
      exact returns_pure
        (.inr ⟨world, tree, frames, slot, rfl, rfl, holds, leads, rfl, fun _ _ => rfl⟩)
    | succ level =>
      have fewer := lt_of_succ_lt_succ enough
      cases slot with
      | entry found => exact absurd (fits_entry.mp (holds.fits_place leads)) (succ_ne_zero level)
      | node ptr slots =>
        refine .of_eq ((holds.walkedTo frames).xasCreateLoop_node top order leads _ _) ?_
        exact ih holds order fewer leads.down
      | empty =>
        have shifts : 6 * (level + 1) > (world.walkedTo frames).xas.xaShift := six_mul_succ_gt order
        refine returns_get ?_
        rw [if_pos shifts]
        refine (holds.xasCreateNode top leads).bind ?_
        rintro _ after (⟨rfl, error⟩ | ⟨ptr, start, rfl, rfl, sameXas, held⟩)
        · exact returns_pure (.inl error)
        · have found := leads.replace (.bare ptr)
          rw [← sameXas] at found
          refine .of_eq ((held.walkedTo frames).xasCreateLoop_down top found turns (6 * level)) ?_
          refine (ih held (sameXas ▸ order) fewer found.down).mono fun word after ends => ?_
          refine ends.imp_right fun ⟨start, next, inner, last, same, walked, reached⟩ => ?_
          exact ⟨start, next, inner, last, same, walked, sameXas ▸ reached.of_bare leads sameXas⟩

/-! ### New nodes above -/

/-- The body of the loop of `xas_expand` puts a new node above the head. -/
theorem XaHolds.raise {rest : List UInt64} (free : world.free = ptr :: rest) :
    ∃ first second after, writeNodeSlot ptr 0 (slotWord tree)
        ((world.walkedTo []).grown ptr rest ⟨6 * total, 0, 0, fun _ => 0⟩) = .ok ((), first) ∧
      moveHead (slotWord tree) ptr first = .ok ((), second) ∧
      Xlinux.writeSlot .head (xaMkNode ptr) second = .ok ((), after.walkedTo []) ∧
      after.xas = world.xas ∧ XaHolds after (total + 1) ((Frame.bare ptr 0).plug tree) := by
  obtain ⟨usable, unused⟩ := holds.spare ptr (free ▸ mem_cons_self)
  have nodup := holds.nodup
  rw [free, nodup_cons] at nodup
  have grown := holds.owns.fresh usable unused ⟨6 * total, 0, 0, fun _ => 0⟩
  have linked := grown.write ⟨6 * total, 0, 0, update (fun _ => 0) 0 (slotWord tree)⟩
  rw [update_idem, add_comm] at linked
  let first : XaWorld := world.grown ptr rest
    ⟨6 * total, 0, 0, update (fun _ => 0) 0 (slotWord tree)⟩
  obtain ⟨nodes, moved, owns⟩ := @moveHead_ok (first.walkedTo []) total tree ptr _ holds.fits linked
  rw [add_comm, ← slotCells_bare_plug] at owns
  refine ⟨first.walkedTo [], _, { first with array := ⟨xaMkNode ptr, nodes⟩ }, ?_, moved,
    rfl, rfl, ?_⟩
  · rw [writeNodeSlot, dif_pos (by decide), modifyXaNode_grown usable]
    rfl
  · refine ⟨rfl, owns, fits_bare_plug holds.fits, nodup.2, fun other member => ?_⟩
    obtain ⟨otherUsable, otherUnused⟩ := holds.spare other (free ▸ mem_cons_of_mem ptr member)
    refine ⟨otherUsable, ?_⟩
    rw [slotCells_bare_plug, Multiset.map_add, Multiset.mem_add, cell, Multiset.map_singleton,
      Multiset.mem_singleton, not_or, map_fst_slotCells ptr 0]
    refine ⟨?_, otherUnused⟩
    rintro rfl
    exact nodup.1 member

/-- The array has room for an index and has what it had. -/
structure XaGrows (index : Nat) (world : XaWorld) (total : Nat) (tree : XaTree) (after : XaWorld)
    (levels : Nat) (next : XaTree) : Prop where
  holds : XaHolds after levels next
  top : levels ≤ 11
  room : index < 64 ^ levels
  xas : after.xas = world.xas
  same : ∀ key, next.lookup levels key = tree.lookup total key
  ne : tree ≠ .empty → next ≠ .empty

/-- The node of the head, if there is one. -/
def headNode : XaTree → UInt64
  | .node ptr _ => ptr
  | _ => 0

theorem XaHolds.gt_maxIndex (top : total ≤ 11) (ne : tree ≠ .empty) (index : UInt64) :
    index > maxIndex world.array (slotWord tree) ↔ 64 ^ total ≤ index.toNat := by
  cases tree with
  | empty => exact absurd rfl ne
  | entry found =>
    rw [fits_entry.mp holds.fits, maxIndex, slotWord, found.xaIsNode, gt_iff_lt]
    rfl
  | node ptr slots =>
    cases total with
    | zero => exact holds.fits.elim
    | succ level =>
      obtain ⟨usable, read⟩ := holds.read_root
      rw [maxIndex, slotWord, usable.xaIsNode, usable.xaToNode, read]
      exact gt_maxIndex_iff (le_of_succ_le_succ top)

theorem XaHolds.xasExpandLoop (top : total ≤ 11)
    (ne : tree ≠ .empty) {turns : Nat} (enough : 11 - total < turns) :
    Hoare.Returns (Xlinux.xasExpandLoop turns (6 * total) (headNode tree) (slotWord tree))
      (world.walkedTo []) fun ended after => ended = none ∧ xasError after.xas = true ∨
        ∃ start levels next, ended = some (6 * levels, headNode next) ∧ after = start.walkedTo [] ∧
          XaGrows world.xas.xaIndex.toNat world total tree start levels next := by
  induction turns generalizing world total tree with
  | zero => cases enough
  | succ turns ih =>
    have more :
        (world.walkedTo []).xas.xaIndex > maxIndex (world.walkedTo []).array (slotWord tree) ↔
        64 ^ total ≤ world.xas.xaIndex.toNat := holds.gt_maxIndex top ne world.xas.xaIndex
    refine returns_get ?_
    by_cases beyond : 64 ^ total ≤ world.xas.xaIndex.toNat
    · have low := le_ten_of_pow_le beyond
      have small : 6 * total ≤ 64 := by omega
      have leads : Leads 0 total tree total [] tree := leads_root (by positivity)
      rw [if_pos (more.mpr beyond), if_neg (not_lt.mpr small)]
      refine (holds.xasAlloc leads small).bind ?_
      rintro ptr after (⟨rfl, error⟩ | ⟨rest, free, rfl⟩)
      · exact returns_pure (.inl ⟨rfl, error⟩)
      · have usable := (holds.spare ptr (free ▸ mem_cons_self)).1
        obtain ⟨_, _, start, wrote, moved, set, sameXas, held⟩ := holds.raise free
        rw [if_neg usable.ne_zero]
        refine .of_eq ((bind_of_ok wrote).trans ((bind_of_ok moved).trans (bind_of_ok set))) ?_
        refine (ih held (succ_le_succ low) nofun (by omega)).mono fun ended after ends => ?_
        refine ends.imp_right fun ⟨start, levels, next, same, walked, grows⟩ => ?_
        refine ⟨start, levels, next, same, walked, grows.holds, grows.top, sameXas ▸ grows.room,
          grows.xas.trans sameXas, fun key => ?_, fun _ => grows.ne nofun⟩
        rw [grows.same, lookup_bare_plug]
    · rw [if_neg (more.not.mpr beyond)]
      exact returns_pure
        (.inr ⟨world, total, tree, rfl, rfl, holds, top, Nat.lt_of_not_le beyond, rfl,
        fun _ => rfl, id⟩)

/-- The state after `xas_expand` is at the node of the head. -/
def XaWorld.atHead (world : XaWorld) (tree : XaTree) : XaWorld :=
  { world with xas := { world.xas with xaNode := headNode tree, xaOffset := 0 } }

theorem XaHolds.head_eq (ne : tree ≠ .empty) :
    slotWord tree ≠ 0 ∧
      (if Xlinux.xaIsNode (slotWord tree) = true then xaToNode (slotWord tree) else 0) =
        headNode tree ∧
      (if Xlinux.xaIsNode (slotWord tree) = true then
        (world.array.nodes (xaToNode (slotWord tree))).shift + xaChunkShift else 0) =
          6 * total := by
  cases tree with
  | empty => exact absurd rfl ne
  | entry found =>
    rw [slotWord, found.xaIsNode, fits_entry.mp holds.fits]
    exact ⟨found.2.1, rfl, rfl⟩
  | node ptr slots =>
    cases total with
    | zero => exact holds.fits.elim
    | succ level =>
      obtain ⟨usable, read⟩ := holds.read_root
      rw [slotWord, usable.xaIsNode, usable.xaToNode, read]
      exact ⟨usable.xaMkNode_ne_zero, rfl, rfl⟩

omit holds in
theorem XaKept.xasExpand (kept : XaKept world total tree) :
    Hoare.Returns (Xlinux.xasExpand (slotWord tree)) (world.walkedTo []) fun ended after =>
      ended = none ∧ xasError after.xas = true ∨
        ∃ start levels next, ended = some (6 * levels) ∧ after = start.atHead next ∧
          XaGrows world.xas.xaIndex.toNat world total tree start levels next := by
  refine returns_get ?_
  by_cases empty : tree = .empty
  · subst empty
    have same :
        ∀ levels key, (.empty : XaTree).lookup levels key = (.empty : XaTree).lookup total key :=
      fun _ _ => lookup_empty.trans lookup_empty.symm
    by_cases zero : (world.walkedTo []).xas.xaIndex = 0
    · have room : world.xas.xaIndex.toNat < 64 ^ 0 := zero ▸ by decide
      rw [if_pos zero]
      exact returns_pure (.inr ⟨world, 0, .empty, rfl, rfl, kept.of_empty 0, by decide, room, rfl,
        same 0, id⟩)
    · have enough : 10 - 0 < maxTurns := by decide
      obtain ⟨shift, small, room, ran⟩ :=
        @xasExpandShift_ok (world.walkedTo []) 0 (by decide) maxTurns enough
      rw [if_neg zero]
      exact ⟨_, _, (bind_of_ok ran).trans rfl, .inr ⟨world, shift + 1, .empty, rfl, rfl,
        kept.of_empty _, succ_le_succ small, room, rfl, same _, id⟩⟩
  · obtain ⟨word, node, shift⟩ := (kept.walkedTo []).head_eq empty
    have enough : 11 - total < maxTurns := (sub_le 11 total).trans_lt (by decide)
    rw [if_neg word, node, shift]
    refine returns_modify ((kept.xasExpandLoop kept.top empty enough).bind ?_)
    rintro _ after (⟨rfl, error⟩ | ⟨start, levels, next, rfl, rfl, grows⟩)
    · exact returns_pure (.inl ⟨rfl, error⟩)
    · exact ⟨_, _, rfl, .inr ⟨start, levels, next, rfl, rfl, grows⟩⟩

/-! ### Down to the slot -/

/-- The slot of an index is there, and the array has what it had. -/
structure XaOpened (index : Nat) (total : Nat) (tree : XaTree) (after : XaWorld) (levels : Nat)
    (next : XaTree) (frames : List XaFrame) (slot : XaTree) : Prop where
  holds : XaHolds after levels next
  top : levels ≤ 11
  room : index < 64 ^ levels
  leads : Leads index levels next 0 frames slot
  same : ∀ key, next.lookup levels key = tree.lookup total key

/-- `xas_create` leaves an error, or the slot of an index is there. -/
def XaCreated (index total : Nat) (tree : XaTree) (world : XaWorld) : Prop :=
  Hoare.Returns (xasCreate true) world fun word after => xasError after.xas = true ∨
    ∃ opened levels next inner last, word = slotWord last ∧ after = opened.walkedTo inner ∧
      XaOpened index total tree opened levels next inner last

theorem XaHolds.xasCreateLoop_atHead (top : total ≤ 11)
    (order : world.xas.xaShift = 0) (room : world.xas.xaIndex.toNat < 64 ^ total) (turns : Nat) :
    Xlinux.xasCreateLoop turns (6 * total) (slotWord tree) .head (world.atHead tree) =
      Xlinux.xasCreateLoop turns (6 * total) (slotWord tree) .head (world.walkedTo []) := by
  cases tree with
  | empty => rfl
  | entry found => rfl
  | node ptr slots =>
    cases total with
    | zero => exact holds.fits.elim
    | succ level =>
      cases turns with
      | zero => rfl
      | succ turns =>
        have here : XaHolds (world.atHead (.node ptr slots)) (level + 1) (.node ptr slots) :=
          holds.congr rfl rfl
        have root : Leads world.xas.xaIndex.toNat (level + 1) (Slot.node ptr slots) (level + 1) []
            (Slot.node ptr slots) := leads_root room
        rw [here.xasCreateLoop_node top order root,
          (holds.walkedTo []).xasCreateLoop_node top order root]
        rfl

omit holds in
/-- `xas_create` from the head of the array. -/
theorem XaKept.xasCreate_top (kept : XaKept world total tree) (order : world.xas.xaShift = 0)
    (offset : world.xas.xaOffset = 0) (restart : xasTop world.xas.xaNode = true) :
    XaCreated world.xas.xaIndex.toNat total tree world := by
  have begins : { world with xas := { world.xas with xaNode := 0 } } = world.walkedTo [] := by
    rw [XaWorld.walkedTo, xaNodeAt, xaOffsetAt, ← offset]
  refine returns_get ?_
  rw [if_pos restart, kept.head]
  refine returns_modify ?_
  rw [begins]
  refine kept.xasExpand.bind ?_
  rintro _ after (⟨rfl, error⟩ | ⟨start, levels, grown, rfl, rfl, grows⟩)
  · exact returns_pure (.inl error)
  · have sameOrder : start.xas.xaShift = 0 := grows.xas ▸ order
    have room : start.xas.xaIndex.toNat < 64 ^ levels := grows.xas ▸ grows.room
    have enough : levels < maxTurns := grows.top.trans_lt (by decide)
    have head : readHead (start.atHead grown) = .ok (slotWord grown, start.atHead grown) := by
      rw [← grows.holds.head]
      rfl
    have root : (if (decide (6 * levels = 0) && !true) = true then xaChunkShift else 6 * levels) =
        6 * levels := by
      rw [Bool.not_true, Bool.and_false, if_neg Bool.false_ne_true]
    dsimp only
    rw [root]
    refine .of_eq ((bind_of_ok head).trans
      (grows.holds.xasCreateLoop_atHead grows.top sameOrder room _)) ?_
    refine (grows.holds.xasCreateLoop grows.top sameOrder enough (leads_root room)).mono
      fun word after ends => ends.imp_right ?_
    rintro ⟨opened, next, inner, last, same, walked, reached⟩
    exact ⟨opened, levels, next, inner, last, same, walked, reached.holds, grows.top, grows.room,
      grows.xas ▸ reached.leads, fun key => (reached.lookup key).trans (grows.same key)⟩

/-- `xas_create` from where `xas_load` has walked to. -/
theorem XaHolds.xasCreate_place (top : total ≤ 11)
    (order : world.xas.xaShift = 0) (room : world.xas.xaIndex.toNat < 64 ^ total)
    (leads : Leads world.xas.xaIndex.toNat total tree level (frame :: frames) slot) :
    XaCreated world.xas.xaIndex.toNat total tree (world.walkedTo (frame :: frames)) := by
  obtain ⟨usable, read⟩ := (holds.walkedTo (frame :: frames)).read leads.up
  have start : (world.walkedTo (frame :: frames)).xas.xaNode = frame.addr := rfl
  have noError := holds.noError leads
  have word : slotWord (update frame.slots frame.digit slot frame.digit) = slotWord slot := by
    rw [update_self]
  have entry : xaEntry frame.addr (world.walkedTo (frame :: frames)).xas.xaOffset
      (world.walkedTo (frame :: frames)) =
        .ok (slotWord slot, world.walkedTo (frame :: frames)) := by
    have found := @xaEntry_ok (world.walkedTo (frame :: frames)) _ usable frame.digit
    rw [read] at found
    rw [← word]
    exact found
  have enough : level < maxTurns :=
    ((le_add_right level _).trans_eq leads.depth).trans_lt (top.trans_lt (by decide))
  refine returns_get ?_
  dsimp only
  rw [start, usable.xasTop, noError]
  refine .of_eq ((bind_of_ok (readXaNode_ok usable)).trans (bind_of_ok entry)) ?_
  rw [read]
  refine (holds.xasCreateLoop top order enough leads).mono fun word after ends => ends.imp_right ?_
  rintro ⟨opened, next, inner, last, same, walked, reached⟩
  exact ⟨opened, total, next, inner, last, same, walked, reached.holds, top, room, reached.leads,
    reached.lookup⟩

end

/-! ### The store -/

theorem fill_eq_empty {frames : List XaFrame} (same : fill frames slot = .empty) :
    frames = [] ∧ slot = .empty := by
  induction frames generalizing slot with
  | nil => exact ⟨rfl, same⟩
  | cons frame rest ih => exact nomatch (ih same).2

/-- What is in the slot of an index with an entry, or with none. -/
def leafOf : Option XaEntry → XaTree
  | none => .empty
  | some entry => .entry entry

theorem slotWord_leafOf (found : Option XaEntry) : slotWord (leafOf found) = entryWord found := by
  cases found <;> rfl

theorem fits_leafOf (found : Option XaEntry) : (leafOf found).Fits 0 := by
  cases found with
  | none => exact fits_empty
  | some entry => exact fits_entry.mpr rfl

theorem get_leafOf (found : Option XaEntry) : (leafOf found).get 0 key = found := by
  cases found <;> rfl

theorem leafOf_get (fits : slot.Fits 0) : leafOf (slot.get 0 key) = slot := by
  cases slot with
  | empty => rfl
  | entry entry => rfl
  | node ptr slots => exact fits.elim

theorem entryWord_injective : Function.Injective entryWord := by
  rintro (_ | first) (_ | second) same
  · rfl
  · exact absurd same.symm second.2.1
  · exact absurd same first.2.1
  · exact congrArg some (Subtype.ext same)

/-- The end of `xas_store` at the slot of an index. -/
theorem XaHolds.xasSetSlot (holds : XaHolds world total tree)
    (leads : Leads key total tree 0 frames slot) (found : Option XaEntry) :
    ∃ after, Xlinux.xasSetSlot (slotWord slot) (entryWord found) (world.walkedTo frames) =
        .ok (slotWord slot, after) ∧ xasError after.xas = false ∧
      XaHolds after total (fill frames (leafOf found)) := by
  have valid := holds.valid leads
  have invalid : xasInvalid (world.walkedTo frames).xas = false :=
    decide_eq_false (not_not.mpr valid)
  have noError := holds.noError leads
  rw [Xlinux.xasSetSlot, get_bind, invalid, if_neg nofun]
  by_cases same : slotWord slot = entryWord found
  · have fits := holds.fits_place leads
    have leaf : slot = leafOf found := by
      rw [← @leafOf_get key slot fits, slotWord_leafOf] at same
      rw [← @leafOf_get key slot fits, entryWord_injective same]
    refine ⟨_, ?_, noError, ?_⟩
    · rw [if_pos same]
      rfl
    · rw [← leaf, leads.tree]
      exact holds.walkedTo frames
  · have place : (if (world.walkedTo frames).xas.xaNode ≠ 0 then
        XaSlot.slot (world.walkedTo frames).xas.xaNode (world.walkedTo frames).xas.xaOffset
        else .head) = slotAt frames := by
      cases frames with
      | nil => rfl
      | cons frame rest => exact if_pos (holds.usable_place leads).ne_zero
    obtain ⟨after, wrote, sameXas, -, held⟩ :=
      (holds.walkedTo frames).writeSlot leads (fits_leafOf found)
    rw [slotWord_leafOf] at wrote
    refine ⟨after, ?_, sameXas ▸ noError, held⟩
    rw [if_neg same, place, bind_of_ok wrote]
    rfl

end Xlinux
