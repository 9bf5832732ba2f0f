/-
This file studies naturally aligned blocks of `2 ^ order` numbers. A block is
the multiset of its numbers, so that a family of blocks can be added up: the sum
has no duplicates exactly when the blocks are disjoint. The buddy of a block
differs from it in one bit of the first number, and the two together are a block
of the next order. Blocks kept on one list per order are added up the same way.
-/

import Mathlib

namespace Blocks

open Function Multiset Nat

variable {first : Nat} {firsts : List Nat} {order : Nat}

/-- The `2 ^ order` numbers from `first` on. -/
def block (order first : Nat) : Multiset Nat :=
  (List.range' first (2 ^ order) : Multiset Nat)

/-- The first number of the buddy of a block. -/
def buddy (order first : Nat) : Nat := first ^^^ 2 ^ order

@[simp]
theorem mem_block {order number : Nat} :
    number ∈ block order first ↔ first ≤ number ∧ number < first + 2 ^ order := by
  rw [block, mem_coe, List.mem_range'_1]

theorem first_mem_block (order first : Nat) : first ∈ block order first :=
  mem_block.mpr ⟨le_rfl, Nat.lt_add_of_pos_right (Nat.two_pow_pos order)⟩

@[simp]
theorem card_block (order first : Nat) : (block order first).card = 2 ^ order := by
  rw [block, coe_card, List.length_range']

theorem block_zero (first : Nat) : block 0 first = {first} := rfl

/-- A block is its lower and its upper half. -/
theorem block_succ (order first : Nat) :
    block (order + 1) first = block order first + block order (first + 2 ^ order) := by
  rw [block, block, block, coe_add, List.range'_append_1, pow_succ, mul_two]

/-- An aligned block is the lower or the upper half of the block it forms with its buddy. -/
theorem buddy_cases (aligned : 2 ^ order ∣ first) :
    (2 ^ (order + 1) ∣ first ∧ buddy order first = first + 2 ^ order ∧
        buddy order first &&& first = first) ∨
      (2 ^ (order + 1) ∣ buddy order first ∧ first = buddy order first + 2 ^ order ∧
        buddy order first &&& first = buddy order first) := by
  obtain ⟨index, rfl⟩ := aligned
  have shifted : ∀ number, 2 ^ order * number = number <<< order := by
    intro number
    rw [shiftLeft_eq, mul_comm]
  have flipped : buddy order (2 ^ order * index) = 2 ^ order * (index ^^^ 1) := by
    have one : 2 ^ order = 1 <<< order := (one_shiftLeft order).symm
    rw [buddy, shifted, shifted, shiftLeft_xor_distrib, ← one]
  have common : buddy order (2 ^ order * index) &&& 2 ^ order * index =
      2 ^ order * ((index ^^^ 1) &&& index) := by
    rw [flipped, shifted, shifted, shifted, shiftLeft_and_distrib]
  have meet : (index ^^^ 1) &&& index = index ^^^ (index % 2) := by
    rw [and_xor_distrib_right, Nat.and_self, Nat.and_comm, and_one_is_mod]
  rw [common, meet, flipped]
  rcases even_or_odd index with even | odd
  · left
    rw [xor_one_of_even even, even_iff.mp even, xor_zero]
    obtain ⟨half, rfl⟩ := even
    exact ⟨⟨half, by ring⟩, by ring, rfl⟩
  · right
    rw [odd_iff.mp odd, xor_one_of_odd odd]
    obtain ⟨half, rfl⟩ := odd
    rw [Nat.add_sub_cancel]
    exact ⟨⟨half, by ring⟩, by ring, rfl⟩

/-- The block that a block and its buddy form is aligned. -/
theorem two_pow_succ_dvd_and (aligned : 2 ^ order ∣ first) :
    2 ^ (order + 1) ∣ buddy order first &&& first := by
  rcases buddy_cases aligned with ⟨wide, _, same⟩ | ⟨wide, _, same⟩ <;> rwa [same]

/-- A block and its buddy together are a block of the next order. -/
theorem block_add_buddy (aligned : 2 ^ order ∣ first) :
    block order first + block order (buddy order first) =
      block (order + 1) (buddy order first &&& first) := by
  rcases buddy_cases aligned with ⟨_, upper, same⟩ | ⟨_, upper, same⟩
  · rw [same, block_succ, upper]
  · rw [same, block_succ, ← upper, add_comm]

/-! ### Lists of blocks -/

/-- The numbers in the blocks of one order that a list names. -/
def listed (order : Nat) (firsts : List Nat) : Multiset Nat := (firsts.map (block order)).sum

/-- The numbers in the blocks on a family of lists, one list for each order. -/
def total (orders : Nat) (lists : Nat → List Nat) : Multiset Nat :=
  ∑ order ∈ Finset.range orders, listed order (lists order)

@[simp]
theorem listed_nil (order : Nat) : listed order [] = 0 := rfl

@[simp]
theorem listed_cons (order first : Nat) (rest : List Nat) :
    listed order (first :: rest) = block order first + listed order rest := rfl

theorem listed_perm {others : List Nat} (same : firsts.Perm others) :
    listed order firsts = listed order others :=
  (same.map (block order)).sum_eq

theorem block_le_listed (member : first ∈ firsts) : block order first ≤ listed order firsts := by
  rw [listed_perm (List.perm_cons_erase member)]
  exact le_add_right _ _

theorem card_listed (order : Nat) (firsts : List Nat) :
    (listed order firsts).card = firsts.length * 2 ^ order := by
  induction firsts with
  | nil => simp
  | cons first rest ih =>
    rw [listed_cons, card_add, card_block, ih, List.length_cons]
    ring

theorem nodup_of_nodup_listed (distinct : (listed order firsts).Nodup) : firsts.Nodup := by
  induction firsts with
  | nil => exact List.nodup_nil
  | cons first rest ih =>
    rw [listed_cons, nodup_add] at distinct
    obtain ⟨_, restDistinct, apart⟩ := distinct
    refine List.nodup_cons.mpr ⟨fun again => ?_, ih restDistinct⟩
    have inRest : first ∈ listed order rest :=
      mem_of_le (block_le_listed again) (first_mem_block order first)
    exact disjoint_left.mp apart (first_mem_block order first) inRest

section Total

variable {orders order : Nat} {lists : Nat → List Nat}
variable {first : Nat}

theorem listed_mono {firsts others : List Nat} (fewer : firsts.Sublist others) :
    listed order firsts ≤ listed order others := by
  induction fewer with
  | slnil => exact le_rfl
  | cons first _ ih =>
    exact ih.trans (le_add_left _ _)
  | cons_cons first _ ih => exact add_le_add_right ih _

variable (inside : order < orders)

include inside

theorem listed_le_total :
    listed order (lists order) ≤ total orders lists :=
  Finset.single_le_sum (f := fun order => listed order (lists order))
    (fun _ _ => zero_le _) (Finset.mem_range.mpr inside)

theorem block_le_total (member : first ∈ lists order) : block order first ≤ total orders lists :=
  (block_le_listed member).trans (listed_le_total inside)

/-- Blocks added to one list are added to the total. -/
theorem total_of_change {changed : Nat → List Nat} {part : Multiset Nat}
    (others : ∀ other < orders, other ≠ order → changed other = lists other)
    (added : listed order (changed order) = part + listed order (lists order)) :
    total orders changed = part + total orders lists := by
  have here : order ∈ Finset.range orders := mem_range.mpr inside
  have rest : ∑ other ∈ (Finset.range orders).erase order, listed other (changed other) =
      ∑ other ∈ (Finset.range orders).erase order, listed other (lists other) := by
    refine Finset.sum_congr rfl fun other member => ?_
    obtain ⟨different, range⟩ := Finset.mem_erase.mp member
    rw [others other (mem_range.mp range) different]
  rw [total, total, ← Finset.add_sum_erase _ _ here, ← Finset.add_sum_erase _ _ here, rest, added,
    add_assoc]

/-- A block on a list, and the blocks that remain when it is taken off. -/
theorem total_eq_block_add (member : first ∈ lists order) :
    total orders lists = block order first +
      total orders (update lists order ((lists order).erase first)) := by
  refine total_of_change inside (fun other _ different => ?_) ?_
  · rw [update_of_ne different]
  · rw [update_self, listed_perm (List.perm_cons_erase member), listed_cons]

/-- When no number is counted twice, different blocks on the lists are disjoint. -/
theorem disjoint_of_nodup_total {other second : Nat} (distinct : (total orders lists).Nodup)
    (otherInside : other < orders) (member : first ∈ lists order)
    (otherMember : second ∈ lists other) (different : (order, first) ≠ (other, second)) :
    Disjoint (block order first) (block other second) := by
  rw [total_eq_block_add inside member, nodup_add] at distinct
  have remains : second ∈ update lists order ((lists order).erase first) other := by
    by_cases same : other = order
    · subst same
      rw [update_self]
      have firsts : second ≠ first := fun equal => different (by rw [equal])
      exact (List.mem_erase_of_ne firsts).mpr otherMember
    · rw [update_of_ne same]
      exact otherMember
  exact distinct.2.2.mono_right (block_le_total otherInside remains)

/-- When no number is counted twice, no number starts blocks of two orders. -/
theorem not_mem_of_nodup_total {other : Nat} (distinct : (total orders lists).Nodup)
    (otherInside : other < orders) (member : first ∈ lists order)
    (different : other ≠ order) : first ∉ lists other := by
  intro again
  have apart := disjoint_of_nodup_total inside distinct otherInside member again
    (fun equal => different (congrArg Prod.fst equal).symm)
  exact disjoint_left.mp apart (first_mem_block order first) (first_mem_block other first)

end Total

end Blocks
