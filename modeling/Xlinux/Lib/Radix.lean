/-
This file is about radix trees: a slot is empty, has an entry, or has a node with
one slot for every digit. The digits of a key, from the highest on, lead from the
root to the slot of the key. A place in a tree is given by the frames above it.
-/

import Mathlib

namespace Radix

open Function Nat

/-- What is in a slot of a tree with some base. A node is labelled with where it is. -/
inductive Slot (base : Nat) (Addr Entry : Type)
  | empty
  | entry (entry : Entry)
  | node (addr : Addr) (slots : Fin base → Slot base Addr Entry)

/-- A node above a place, with the digit that leads to the place. -/
structure Frame (base : Nat) (Addr Entry : Type) where
  addr : Addr
  slots : Fin base → Slot base Addr Entry
  digit : Fin base

variable {base : Nat} {Addr Entry : Type}

/-- Put something at the place under a frame. -/
def Frame.plug (frame : Frame base Addr Entry) (slot : Slot base Addr Entry) :
    Slot base Addr Entry :=
  .node frame.addr (update frame.slots frame.digit slot)

/-- Put something at a place. The first frame is the one next to the place. -/
def fill : List (Frame base Addr Entry) → Slot base Addr Entry → Slot base Addr Entry
  | [], slot => slot
  | frame :: rest, slot => fill rest (frame.plug slot)

/-- The keys below a place have this number in front of their last digits. -/
def place : List (Frame base Addr Entry) → Nat
  | [] => 0
  | frame :: rest => place rest * base + frame.digit

/-- Entries are exactly as far down as a level says. -/
def Slot.Fits : Nat → Slot base Addr Entry → Prop
  | _, .empty => True
  | level, .entry _ => level = 0
  | 0, .node _ _ => False
  | level + 1, .node _ slots => ∀ digit, (slots digit).Fits level

section Get

variable [NeZero base]

/-- A digit of a key. -/
def digit (base level key : Nat) [NeZero base] : Fin base := Fin.ofNat base (key / base ^ level)

/-- The entry of a key in a slot at some level. -/
def Slot.get : Nat → Slot base Addr Entry → Nat → Option Entry
  | 0, .entry found, _ => some found
  | level + 1, .node _ slots, key => (slots (digit base level key)).get level key
  | _, _, _ => none

/-- The entry of a key in a tree with some number of levels. -/
def Slot.lookup (level : Nat) (slot : Slot base Addr Entry) (key : Nat) : Option Entry :=
  if key < base ^ level then slot.get level key else none

variable {level key other : Nat} {slot next : Slot base Addr Entry}
  {frames : List (Frame base Addr Entry)} {frame : Frame base Addr Entry}

theorem val_digit : (digit base level key : Nat) = key / base ^ level % base :=
  Fin.val_ofNat base _

/-- What comes before the last digits of a key, with one digit split off. -/
theorem div_pow_eq_place_cons :
    key / base ^ level = place (frame :: frames) ↔
      key / base ^ (level + 1) = place frames ∧ digit base level key = frame.digit := by
  have split := div_add_mod' (key / base ^ level) base
  rw [Nat.div_div_eq_div_mul, ← pow_succ, ← val_digit] at split
  rw [place]
  constructor
  · intro same
    have both : place frames * base + frame.digit =
        key / base ^ (level + 1) * base + digit base level key := by rw [split, same]
    have highs := congrArg (· / base) both
    have lows := congrArg (· % base) both
    simp only [mul_add_mod_self_right, mod_eq_of_lt (Fin.is_lt _)] at lows
    simp only [add_comm _ (Fin.val _), add_mul_div_right _ _ (NeZero.pos base),
      div_eq_of_lt (Fin.is_lt _), zero_add] at highs
    exact ⟨highs.symm, Fin.ext lows.symm⟩
  · rintro ⟨high, low⟩
    rw [← split, high, low]

@[simp]
theorem get_empty : (Slot.empty : Slot base Addr Entry).get level key = none := by
  cases level <;> rfl

@[simp]
theorem lookup_empty : (Slot.empty : Slot base Addr Entry).lookup level key = none := by
  rw [Slot.lookup, get_empty, ite_self]

theorem get_plug : (frame.plug slot).get (level + 1) key =
    if digit base level key = frame.digit then slot.get level key
    else (frame.slots (digit base level key)).get level key := by
  rw [Frame.plug, Slot.get, update_apply]
  split <;> rfl

/-- The tree at a place has the keys of the place. -/
theorem get_fill (small : key < base ^ (level + frames.length))
    (here : key / base ^ level = place frames) :
    (fill frames slot).get (level + frames.length) key = slot.get level key := by
  induction frames generalizing level slot with
  | nil => rfl
  | cons frame rest ih =>
    rw [List.length_cons, ← add_assoc, add_right_comm] at small ⊢
    obtain ⟨above, same⟩ := div_pow_eq_place_cons.mp here
    rw [fill, ih small above, get_plug, if_pos same]

/-- The other keys do not depend on the tree at a place. -/
theorem get_fill_of_ne (next : Slot base Addr Entry) (small : key < base ^ (level + frames.length))
    (elsewhere : key / base ^ level ≠ place frames) :
    (fill frames slot).get (level + frames.length) key =
      (fill frames next).get (level + frames.length) key := by
  induction frames generalizing level slot next with
  | nil => exact absurd (div_eq_of_lt small) elsewhere
  | cons frame rest ih =>
    rw [List.length_cons, ← add_assoc, add_right_comm] at small ⊢
    rw [fill, fill]
    by_cases above : key / base ^ (level + 1) = place rest
    · have different : digit base level key ≠ frame.digit := fun same =>
        elsewhere (div_pow_eq_place_cons.mpr ⟨above, same⟩)
      rw [get_fill small above, get_fill small above, get_plug, get_plug, if_neg different,
        if_neg different]
    · exact ih _ small above

/-! ### Places on the way to a key -/

/-- A place in a tree, with what is there, that the digits of a key lead to. -/
structure Leads (key total : Nat) (tree : Slot base Addr Entry) (level : Nat)
    (frames : List (Frame base Addr Entry)) (slot : Slot base Addr Entry) : Prop where
  tree : fill frames slot = tree
  depth : level + frames.length = total
  here : key / base ^ level = place frames

variable {total : Nat} {tree : Slot base Addr Entry} {addr : Addr}
  {slots : Fin base → Slot base Addr Entry}

omit [NeZero base] in
theorem leads_root (small : key < base ^ total) : Leads key total tree total [] tree :=
  ⟨rfl, rfl, div_eq_of_lt small⟩

theorem Leads.down (leads : Leads key total tree (level + 1) frames (.node addr slots)) :
    Leads key total tree level (⟨addr, slots, digit base level key⟩ :: frames)
      (slots (digit base level key)) where
  tree := by rw [fill, Frame.plug, update_eq_self, leads.tree]
  depth := by rw [← leads.depth, List.length_cons, ← add_assoc, add_right_comm]
  here := div_pow_eq_place_cons.mpr ⟨leads.here, rfl⟩

/-- The node next to a place. -/
theorem Leads.up (leads : Leads key total tree level (frame :: frames) slot) :
    Leads key total tree (level + 1) frames (frame.plug slot) where
  tree := leads.tree
  depth := by rw [← leads.depth, List.length_cons, ← add_assoc, add_right_comm]
  here := (div_pow_eq_place_cons.mp leads.here).1

theorem Leads.get_eq (leads : Leads key total tree level frames slot) (small : key < base ^ total) :
    tree.get total key = slot.get level key := by
  rw [← leads.depth] at small
  rw [← leads.tree, ← leads.depth, get_fill small leads.here]

omit [NeZero base] in
/-- Something else at the place. -/
theorem Leads.replace (leads : Leads key total tree level frames slot)
    (next : Slot base Addr Entry) : Leads key total (fill frames next) level frames next :=
  ⟨rfl, leads.depth, leads.here⟩

/-- At the end of the way there is the entry of one key. -/
theorem Leads.lookup_replace (leads : Leads key total tree 0 frames slot)
    (small : key < base ^ total) (next : Slot base Addr Entry) :
    (fill frames next).lookup total other =
      if other = key then next.get 0 key else tree.lookup total other := by
  have inside := leads.here
  rw [pow_zero, Nat.div_one] at inside
  rw [Slot.lookup, Slot.lookup, ← leads.tree, ← leads.depth]
  rw [← leads.depth] at small
  by_cases same : other = key
  · rw [if_pos same, same, if_pos small, get_fill small leads.here]
  · split_ifs with low
    · refine get_fill_of_ne slot low ?_
      rw [pow_zero, Nat.div_one, ← inside]
      exact same
    · rfl

/-! ### New nodes -/

/-- A node with one slot in use. -/
def Frame.bare (addr : Addr) (digit : Fin base) : Frame base Addr Entry :=
  ⟨addr, fun _ => .empty, digit⟩

/-- A node with no slot in use. -/
def Slot.bare (addr : Addr) : Slot base Addr Entry := .node addr fun _ => .empty

theorem get_bare : (Slot.bare addr : Slot base Addr Entry).get level key = none := by
  cases level with
  | zero => rfl
  | succ level => rw [Slot.bare, Slot.get, get_empty]

/-- A node above the root does not change the keys. -/
theorem lookup_bare_plug (addr : Addr) :
    ((Frame.bare addr 0).plug slot).lookup (level + 1) key = slot.lookup level key := by
  have first : digit base level key = 0 ↔ key / base ^ level % base = 0 := by
    rw [← val_digit, Fin.val_eq_zero_iff]
  rw [Slot.lookup, Slot.lookup, get_plug, Frame.bare, get_empty]
  by_cases low : key < base ^ level
  · have inside : key < base ^ (level + 1) :=
      low.trans_le (Nat.pow_le_pow_right (NeZero.pos base) (le_succ level))
    rw [if_pos inside, if_pos low, if_pos (first.mpr (by rw [div_eq_of_lt low, zero_mod]))]
  · split
    case isTrue inside =>
      have small : key / base ^ level < base := by
        rw [div_lt_iff_lt_mul (pow_pos (NeZero.pos base) level), mul_comm]
        exact inside
      have positive : 0 < key / base ^ level :=
        Nat.div_pos (Nat.le_of_not_lt low) (pow_pos (NeZero.pos base) level)
      have other : ¬ digit base level key = 0 := fun zero => by
        have rest := first.mp zero
        rw [mod_eq_of_lt small] at rest
        exact positive.ne' rest
      rw [if_neg other]
    case isFalse => rfl

end Get

/-! ### Levels -/

section Fits

variable {level : Nat} {slot next : Slot base Addr Entry} {frames : List (Frame base Addr Entry)}
  {frame : Frame base Addr Entry} {addr : Addr}

@[simp]
theorem fits_empty : (Slot.empty : Slot base Addr Entry).Fits level := by
  cases level <;> trivial

theorem fits_entry {entry : Entry} :
    (Slot.entry entry : Slot base Addr Entry).Fits level ↔ level = 0 := by
  cases level <;> exact Iff.rfl

theorem fits_bare_plug {digit : Fin base} (fits : slot.Fits level) :
    ((Frame.bare addr digit).plug slot).Fits (level + 1) := by
  intro other
  show Slot.Fits level (update (fun _ => Slot.empty) digit slot other)
  by_cases same : other = digit
  · rw [same, update_self]
    exact fits
  · rw [update_of_ne same]
    exact fits_empty

theorem fits_of_fill (fits : (fill frames slot).Fits (level + frames.length)) :
    slot.Fits level := by
  induction frames generalizing level slot with
  | nil => exact fits
  | cons frame rest ih =>
    rw [List.length_cons, ← add_assoc, add_right_comm] at fits
    have above := ih fits frame.digit
    rwa [update_self] at above

theorem fits_fill (fits : (fill frames slot).Fits (level + frames.length)) (new : next.Fits level) :
    (fill frames next).Fits (level + frames.length) := by
  induction frames generalizing level slot next with
  | nil => exact new
  | cons frame rest ih =>
    rw [List.length_cons, ← add_assoc, add_right_comm] at fits ⊢
    refine ih fits fun other => ?_
    have above := fits_of_fill fits other
    by_cases same : other = frame.digit
    · rw [same, update_self]
      exact new
    · rwa [update_of_ne same] at above ⊢

end Fits

end Radix
