/-
This file is about sets of numbers that are kept as the bits of an array of
64-bit words: number `n` is bit `n % 64` of word `n / 64`. Changing one word
changes the numbers of that word only, so that setting a bit inserts one number
and clearing a bit removes one, and a word is all ones when its numbers are all
in the set.
-/

import Mathlib

namespace Bitmap

open UInt64

variable {k low : Nat}

/-! ### Bits of a word -/

/-- The bit `k` of a word. -/
def wordBit (word : UInt64) (k : Nat) : Bool := word.toBitVec.getLsbD k

theorem word_ext {first second : UInt64} (same : ∀ k < 64, wordBit first k = wordBit second k) :
    first = second :=
  UInt64.eq_of_toBitVec_eq (BitVec.eq_of_getLsbD_eq same)

@[simp] theorem wordBit_zero (k : Nat) : wordBit 0 k = false := by
  simp [wordBit]

@[simp] theorem wordBit_or (first second : UInt64) (k : Nat) :
    wordBit (first ||| second) k = (wordBit first k || wordBit second k) := by
  simp [wordBit]

@[simp] theorem wordBit_and (first second : UInt64) (k : Nat) :
    wordBit (first &&& second) k = (wordBit first k && wordBit second k) := by
  simp [wordBit]

theorem wordBit_not (word : UInt64) (small : k < 64) : wordBit (~~~word) k = !wordBit word k := by
  simp [wordBit, small]

theorem toNat_mod_ofNat (bound : low < 64) : (UInt64.ofNat low).toNat % 64 = low := by
  rw [toNat_ofNat_of_lt' (bound.trans (by decide)), Nat.mod_eq_of_lt bound]

theorem wordBit_shl (word : UInt64) (bound : low < 64) (small : k < 64) :
    wordBit (word <<< UInt64.ofNat low) k = (decide (low ≤ k) && wordBit word (k - low)) := by
  have shifted : (word <<< ofNat low).toBitVec = word.toBitVec <<< low := by
    refine BitVec.eq_of_toNat_eq ?_
    rw [toNat_toBitVec, UInt64.toNat_shiftLeft, toNat_mod_ofNat bound]
    rfl
  rw [wordBit, shifted, BitVec.getLsbD_shiftLeft, decide_eq_true small, Bool.true_and, wordBit,
    ← decide_not, decide_eq_decide.mpr not_lt]

/-- The word of ones from bit `low` on. -/
theorem wordBit_ones_shl (bound : low < 64) (small : k < 64) :
    wordBit (0xffffffffffffffff <<< UInt64.ofNat low) k = decide (low ≤ k) := by
  have ones : wordBit 0xffffffffffffffff (k - low) = true :=
    (BitVec.getLsbD_allOnes).trans (decide_eq_true (by omega))
  rw [wordBit_shl _ bound small, ones, Bool.and_true]

theorem wordBit_one_shl (bound : low < 64) (small : k < 64) :
    wordBit (1 <<< UInt64.ofNat low) k = decide (k = low) := by
  have one : wordBit 1 (k - low) = decide (k - low = 0) := by
    simp [wordBit]
  rw [wordBit_shl _ bound small, one, ← Bool.decide_and]
  exact decide_eq_decide.mpr (by omega)

theorem eq_ones_iff (word : UInt64) : ~~~word = 0 ↔ ∀ k < 64, wordBit word k = true := by
  constructor
  · intro zero k small
    have clear := wordBit_not word small
    rw [zero] at clear
    simpa using clear.symm
  · intro set
    refine word_ext fun k small => ?_
    rw [wordBit_not word small, set k small, wordBit_zero]
    rfl

theorem and_eq_mask_iff (word mask : UInt64) :
    word &&& mask = mask ↔ ∀ k < 64, wordBit mask k = true → wordBit word k = true := by
  constructor
  · intro same k _ set
    have both := congrArg (wordBit · k) same
    simp only [wordBit_and, set, Bool.and_true] at both
    exact both
  · intro set
    refine word_ext fun k small => ?_
    rw [wordBit_and]
    cases masked : wordBit mask k with
    | false => rw [Bool.and_false]
    | true => rw [set k small masked, Bool.and_true]

theorem and_or_eq_mask_iff (word first second : UInt64) :
    word &&& (first ||| second) = first ||| second ↔
      word &&& first = first ∧ word &&& second = second := by
  simp only [and_eq_mask_iff, wordBit_or, Bool.or_eq_true, or_imp, forall_and]

/-- A mask of one bit selects all of it or nothing. -/
theorem and_bit_eq_mask_iff (word : UInt64) (bound : k < 64) :
    word &&& (1 <<< UInt64.ofNat k) = 1 <<< UInt64.ofNat k ↔
      word &&& (1 <<< UInt64.ofNat k) ≠ 0 := by
  have bits : ∀ n < 64, wordBit (word &&& (1 <<< ofNat k)) n =
      (wordBit word n && decide (n = k)) := fun n small => by
    rw [wordBit_and, wordBit_one_shl bound small]
  constructor
  · intro same zero
    have set := wordBit_one_shl bound bound
    rw [← same, zero, wordBit_zero, decide_eq_true rfl] at set
    cases set
  · intro nonzero
    have set : wordBit word k = true := by
      by_contra clear
      refine nonzero (word_ext fun n small => ?_)
      rw [bits n small, wordBit_zero]
      by_cases same : n = k
      · rw [same, Bool.eq_false_of_not_eq_true clear, Bool.false_and]
      · rw [decide_eq_false same, Bool.and_false]
    refine word_ext fun n small => ?_
    rw [bits n small, wordBit_one_shl bound small]
    by_cases same : n = k
    · rw [same, set, Bool.true_and]
    · rw [decide_eq_false same, Bool.and_false]

/-! ### Bits of an array of words -/

/-- A word, or no bits beyond the last one. -/
def word (words : Array UInt64) (block : Nat) : UInt64 := words[block]?.getD 0

/-- Whether a number is in the set. -/
def bit (words : Array UInt64) (n : Nat) : Bool := wordBit (word words (n / 64)) (n % 64)

variable {words : Array UInt64} {n m : Nat}

theorem bit_block {block : Nat} (small : k < 64) :
    bit words (64 * block + k) = wordBit (word words block) k := by
  have split : (64 * block + k) / 64 = block ∧ (64 * block + k) % 64 = k := by omega
  rw [bit, split.1, split.2]

theorem word_modify {block other : Nat} {change : UInt64 → UInt64} (inside : block < words.size) :
    word (words.modify block change) other =
      if block = other then change (word words block) else word words other := by
  rw [word, Array.getElem?_modify, word]
  split_ifs with same
  · subst same
    rw [Array.getElem?_eq_getElem inside]
    rfl
  · rfl

theorem bit_or_word {p : Nat} (mask : UInt64) (inside : p < words.size) :
    bit (words.modify p (· ||| mask)) n =
      (bit words n || (decide (n / 64 = p) && wordBit mask (n % 64))) := by
  rw [bit, word_modify inside, bit]
  split_ifs with same
  · rw [wordBit_or, decide_eq_true same.symm, Bool.true_and, same]
  · rw [decide_eq_false (Ne.symm same), Bool.false_and, Bool.or_false]

theorem bit_insert (inside : m / 64 < words.size) :
    bit (words.modify (m / 64) (· ||| 1 <<< UInt64.ofNat (m % 64))) n =
      (decide (n = m) || bit words n) := by
  have small : ∀ k, k % 64 < 64 := fun k => Nat.mod_lt _ (by decide)
  have exactly : (n / 64 = m / 64 ∧ n % 64 = m % 64) ↔ n = m := by omega
  rw [bit_or_word _ inside, wordBit_one_shl (small m) (small n), ← Bool.decide_and,
    decide_eq_decide.mpr exactly, Bool.or_comm]

theorem bit_remove (inside : m / 64 < words.size) :
    bit (words.modify (m / 64) (· &&& ~~~(1 <<< UInt64.ofNat (m % 64)))) n =
      (!decide (n = m) && bit words n) := by
  have small : ∀ k, k % 64 < 64 := fun k => Nat.mod_lt _ (by decide)
  rw [bit, word_modify inside, bit]
  split_ifs with same
  · have exactly : n % 64 = m % 64 ↔ n = m := by omega
    rw [wordBit_and, wordBit_not _ (small n), wordBit_one_shl (small m) (small n), same,
      decide_eq_decide.mpr exactly, Bool.and_comm]
  · have apart : n ≠ m := by
      rintro rfl
      exact same rfl
    rw [decide_eq_false apart, Bool.not_false, Bool.true_and]

theorem ones_iff (block : Nat) :
    ~~~(word words block) = 0 ↔ ∀ n, n / 64 = block → bit words n = true := by
  rw [eq_ones_iff]
  constructor
  · rintro set n rfl
    exact set _ (Nat.mod_lt _ (by decide))
  · intro set k small
    rw [← bit_block small]
    exact set _ (by omega)

/-! ### The next number -/

/-- The least number from `start` on with a property, or the bound when there is none below it. -/
structure Next (wanted : Nat → Bool) (bound start result : Nat) : Prop where
  bounded : result ≤ bound
  before : ∀ n, start ≤ n → n < result → wanted n = false
  reached : result < bound → start ≤ result ∧ wanted result = true

/-- A search may begin behind numbers that are known not to be wanted. -/
theorem Next.skip {wanted : Nat → Bool} {bound start later result : Nat}
    (next : Next wanted bound later result) (order : start ≤ later)
    (skipped : ∀ n, start ≤ n → n < later → wanted n = false) : Next wanted bound start result where
  bounded := next.bounded
  before n above below := by
    by_cases early : n < later
    · exact skipped n above early
    · exact next.before n (Nat.le_of_not_lt early) below
  reached inside := ⟨order.trans (next.reached inside).1, (next.reached inside).2⟩

end Bitmap
