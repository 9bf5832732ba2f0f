/-
This file models the bitmaps of `lib/find_bit.c` and `include/bits.h`: setting,
clearing and testing a bit, and `_find_next_bit`, which looks at the first word
through a mask and then at one word after the other. The search finds the least
bit from its start on, or returns its bound.
-/

import Xlinux.Kernel
import Xlinux.Word
import Xlinux.Lib.Bitmap

namespace Xlinux

open Bitmap UInt64

/-! ### The code -/

/-- `~0UL`. -/
def ulongMax : UInt64 := 0xffffffffffffffff

/-- `addr[index]`. -/
def bitmapWord (addr : Array UInt64) (index : Nat) : Kernel UInt64 :=
  match addr[index]? with
  | some word => .ok word
  | none => .error .outOfBounds

/-- `*p = change(*p)` for the word `p` of the bit `nr`, which is an `int`. -/
def changeBit (change : UInt64 → UInt64 → UInt64) (nr : Int) (addr : Array UInt64) :
    Kernel (Array UInt64) :=
  if 0 ≤ nr ∧ nr.toNat / 64 < addr.size then
    .ok (addr.modify (nr.toNat / 64) (change (1 <<< UInt64.ofNat (nr.toNat % 64))))
  else .error .outOfBounds

/-- `__set_bit`. -/
def setBit : Int → Array UInt64 → Kernel (Array UInt64) := changeBit fun mask word => word ||| mask

/-- `__clear_bit`. -/
def clearBit : Int → Array UInt64 → Kernel (Array UInt64) :=
    changeBit fun mask word => word &&& ~~~mask

/-- `test_bit`. -/
def testBit (nr : Int) (addr : Array UInt64) : Kernel Bool := do
  if nr < 0 then throw .outOfBounds
  let word ← bitmapWord addr (nr.toNat / 64)
  return 1 &&& (word >>> UInt64.ofNat (nr.toNat % 64)) ≠ 0

/-- The word of a bit in both bitmaps, inverted for a search of zeros. -/
def findWord (addr1 : Array UInt64) (addr2 : Option (Array UInt64)) (invert start : UInt64) :
    Kernel UInt64 := do
  let tmp ← bitmapWord addr1 (start / 64).toNat
  let tmp ← match addr2 with
    | none => pure tmp
    | some addr2 => do
      let other ← bitmapWord addr2 (start / 64).toNat
      pure (tmp &&& other)
  return tmp ^^^ invert

/-- The loop of `_find_next_bit`. -/
def findNextBitLoop (addr1 : Array UInt64) (addr2 : Option (Array UInt64)) (nbits invert : UInt64) :
    Nat → UInt64 → UInt64 → Kernel UInt64
  | 0, _, _ => .error .endless
  | turns + 1, start, tmp =>
    if tmp = 0 then
      if start + 64 ≥ nbits then .ok nbits
      else do
        let tmp ← findWord addr1 addr2 invert (start + 64)
        findNextBitLoop addr1 addr2 nbits invert turns (start + 64) tmp
    else .ok (cmin (start + UInt64.ofNat (ffs tmp)) nbits)

/-- `_find_next_bit`. -/
def findNextBit (addr1 : Array UInt64) (addr2 : Option (Array UInt64))
    (nbits start invert : UInt64) : Kernel UInt64 :=
  if start ≥ nbits then .ok nbits
  else do
    let tmp ← findWord addr1 addr2 invert start
    let mask := ulongMax <<< (start &&& (64 - 1))
    findNextBitLoop addr1 addr2 nbits invert maxTurns (roundDown start 64) (tmp &&& mask)

/-- `find_next_zero_bit`. -/
def findNextZeroBit (addr : Array UInt64) (size offset : UInt64) : Kernel UInt64 :=
  findNextBit addr none size offset ulongMax

/-! ### One bit -/

variable {addr : Array UInt64} {n m : Nat}

theorem bitmapWord_ok {index : Nat} (inside : index < addr.size) :
    bitmapWord addr index = .ok (word addr index) := by
  rw [bitmapWord, word, Array.getElem?_eq_getElem inside]
  rfl

section

variable (inside : m / 64 < addr.size)

include inside

theorem changeBit_ok (change : UInt64 → UInt64 → UInt64) :
    changeBit change m addr =
      .ok (addr.modify (m / 64) (change (1 <<< UInt64.ofNat (m % 64)))) := by
  rw [changeBit, Int.toNat_natCast, if_pos ⟨Int.natCast_nonneg m, inside⟩]

theorem setBit_ok :
    ∃ after, setBit m addr = .ok after ∧ after.size = addr.size ∧
      (∀ n, bit after n = (decide (n = m) || bit addr n)) ∧
      word after (m / 64) = word addr (m / 64) ||| 1 <<< UInt64.ofNat (m % 64) := by
  refine ⟨_, changeBit_ok inside _, Array.size_modify, fun n => bit_insert inside, ?_⟩
  rw [word_modify inside, if_pos rfl]

theorem clearBit_ok :
    ∃ after, clearBit m addr = .ok after ∧ after.size = addr.size ∧
      ∀ n, bit after n = (!decide (n = m) && bit addr n) :=
  ⟨_, changeBit_ok inside _, Array.size_modify, fun _ => bit_remove inside⟩

theorem testBit_ok : ∃ result, testBit m addr = .ok result := by
  rw [testBit, Int.toNat_natCast, bitmapWord_ok inside]
  exact ⟨_, rfl⟩

end

/-! ### The first set bit -/

theorem ffs_lt {tmp : UInt64} (nonzero : tmp ≠ 0) : ffs tmp < 64 := by
  obtain ⟨_, value⟩ := ffs_odd nonzero
  by_contra large
  have high : 2 ^ 64 ≤ 2 ^ ffs tmp := Nat.pow_le_pow_right (by decide) (Nat.le_of_not_lt large)
  have power : 2 ^ ffs tmp ≤ tmp.toNat := value ▸ Nat.le_mul_of_pos_left _ (Nat.succ_pos _)
  exact absurd (high.trans power) (not_le.mpr tmp.toNat_lt)

theorem wordBit_ffs {tmp : UInt64} (nonzero : tmp ≠ 0) : wordBit tmp (ffs tmp) = true := by
  obtain ⟨_, value⟩ := ffs_odd nonzero
  show tmp.toNat.testBit (ffs tmp) = true
  rw [value, Nat.testBit_mul_two_pow, Nat.sub_self, decide_eq_true le_rfl, Bool.true_and,
    Nat.testBit_zero]
  exact decide_eq_true (by omega)

theorem wordBit_of_lt_ffs {tmp : UInt64} (nonzero : tmp ≠ 0) {k : Nat} (low : k < ffs tmp) :
    wordBit tmp k = false := by
  obtain ⟨_, value⟩ := ffs_odd nonzero
  show tmp.toNat.testBit k = false
  rw [value, Nat.testBit_mul_two_pow, decide_eq_false (not_le.mpr low), Bool.false_and]

/-! ### The search -/

section Search

variable {nbits invert start : UInt64}

/-- The bits a search looks for. -/
def wanted (addr : Array UInt64) (invert : UInt64) (n : Nat) : Bool :=
  wordBit (word addr (n / 64) ^^^ invert) (n % 64)

theorem wanted_ulongMax (addr : Array UInt64) (n : Nat) : wanted addr ulongMax n = !bit addr n := by
  have inverted : word addr (n / 64) ^^^ ulongMax = ~~~word addr (n / 64) := xor_neg_one
  rw [wanted, inverted, wordBit_not _ (Nat.mod_lt _ (by decide)), bit]

theorem findWord_ok (block : Nat) (inside : block < addr.size) (place : start.toNat / 64 = block) :
    findWord addr none invert start = .ok (word addr block ^^^ invert) := by
  have index : (start / 64).toNat = block := by
    exact place
  rw [findWord, index, bitmapWord_ok inside]
  rfl

/-- The loop stands at a word, with the bits of it that may still be found. -/
structure Searching (addr : Array UInt64) (invert : UInt64) (first block : Nat) (tmp : UInt64) :
    Prop where
  bits : ∀ k < 64, wordBit tmp k = (decide (first ≤ 64 * block + k) &&
    wordBit (word addr block ^^^ invert) k)
  passed : ∀ n, first ≤ n → n < 64 * block → wanted addr invert n = false

variable {first block : Nat} {tmp : UInt64}

theorem Searching.wanted_of_bit (searching : Searching addr invert first block tmp) {k : Nat}
    (small : k < 64) (low : first ≤ 64 * block + k) :
    wanted addr invert (64 * block + k) = wordBit tmp k := by
  have split : (64 * block + k) / 64 = block ∧ (64 * block + k) % 64 = k := by omega
  rw [searching.bits k small, decide_eq_true low, Bool.true_and, wanted, split.1, split.2]

/-- The next word, when this one has nothing. -/
theorem Searching.next (searching : Searching addr invert first block 0)
    (low : first < 64 * (block + 1)) :
    Searching addr invert first (block + 1) (word addr (block + 1) ^^^ invert) where
  bits k _ := by
    rw [decide_eq_true (by omega), Bool.true_and]
  passed n above below := by
    by_cases earlier : n < 64 * block
    · exact searching.passed n above earlier
    · obtain ⟨k, rfl⟩ := Nat.exists_eq_add_of_le (Nat.le_of_not_lt earlier)
      rw [searching.wanted_of_bit (by omega) above, wordBit_zero]

theorem Searching.found (searching : Searching addr invert first block tmp) (nonzero : tmp ≠ 0) :
    Next (wanted addr invert) nbits.toNat first (min (64 * block + ffs tmp) nbits.toNat) := by
  have small := ffs_lt nonzero
  have there := searching.bits (ffs tmp) small
  rw [wordBit_ffs nonzero, eq_comm, Bool.and_eq_true, decide_eq_true_eq] at there
  refine ⟨min_le_right _ _, fun n above below => ?_, fun inside => ?_⟩
  · by_cases earlier : n < 64 * block
    · exact searching.passed n above earlier
    · obtain ⟨k, rfl⟩ := Nat.exists_eq_add_of_le (Nat.le_of_not_lt earlier)
      have lower : k < ffs tmp := by omega
      rw [searching.wanted_of_bit (lower.trans small) above, wordBit_of_lt_ffs nonzero lower]
  · rw [min_eq_left (by omega)]
    refine ⟨there.1, ?_⟩
    rw [searching.wanted_of_bit small there.1, wordBit_ffs nonzero]

theorem findNextBitLoop_next (room : nbits.toNat ≤ 64 * addr.size) (far : nbits.toNat + 64 ≤ 2 ^ 64)
    {turns : Nat} {start : UInt64} (place : start.toNat = 64 * block)
    (inside : 64 * block < nbits.toNat) (low : first < 64 * (block + 1))
    (enough : nbits.toNat ≤ 64 * block + 64 * turns)
    (searching : Searching addr invert first block tmp) :
    ∃ result, findNextBitLoop addr none nbits invert turns start tmp = .ok result ∧
      Next (wanted addr invert) nbits.toNat first result.toNat := by
  -- The loop leaves one word behind in every turn.
  induction turns generalizing block start tmp with
  | zero => omega
  | succ turns ih =>
    have after : (start + 64).toNat = 64 * (block + 1) := by
      rw [toNat_add_of_lt (by rw [place]; show _ + 64 < _; omega), place]
      rfl
    rw [findNextBitLoop]
    by_cases zero : tmp = 0
    · subst zero
      by_cases last : start + 64 ≥ nbits
      · rw [if_pos last]
        have bound := le_iff_toNat_le.mp last
        rw [after] at bound
        exact ⟨nbits, rfl, le_rfl, fun n above below =>
          (searching.next low).passed n above (below.trans_le bound), fun inside =>
            absurd inside (lt_irrefl _)⟩
      · have more : 64 * (block + 1) < nbits.toNat := by
          rw [← after]
          exact lt_iff_toNat_lt.mp (UInt64.not_le.mp last)
        rw [if_neg last, findWord_ok (block + 1) (by omega) (by omega)]
        exact ih after more (by omega) (by omega) (searching.next low)
    · rw [if_neg zero]
      have small := ffs_lt zero
      have count : (ofNat (ffs tmp)).toNat = ffs tmp :=
        toNat_ofNat_of_lt' (small.trans (by decide))
      refine ⟨_, rfl, ?_⟩
      rw [toNat_cmin, toNat_add_of_lt (by rw [count]; omega), place, count]
      exact searching.found zero

/-- The first word, through the mask. -/
theorem searching_first (addr : Array UInt64) (invert start : UInt64) :
    Searching addr invert start.toNat (start.toNat / 64)
      ((word addr (start.toNat / 64) ^^^ invert) &&& ulongMax <<< (start &&& (64 - 1))) := by
  have shift : start &&& (64 - 1) = ofNat (start.toNat % 64) := by
    refine UInt64.toNat_inj.mp ?_
    rw [toNat_and_mask start (show (64 - 1 : UInt64).toNat = 2 ^ 6 - 1 from rfl),
      toNat_ofNat_of_lt' (lt_of_lt_of_le (Nat.mod_lt _ (by decide)) (by decide))]
    rfl
  refine ⟨fun k small => ?_, fun n above below => by omega⟩
  have masked :
      decide (start.toNat % 64 ≤ k) = decide (start.toNat ≤ 64 * (start.toNat / 64) + k) :=
    decide_eq_decide.mpr (by omega)
  rw [shift, wordBit_and, ulongMax, wordBit_ones_shl (Nat.mod_lt _ (by decide)) small,
    Bool.and_comm, masked]

/-- `_find_next_bit` finds the least bit from its start on. -/
theorem findNextBit_next (room : nbits.toNat ≤ 64 * addr.size) (far : nbits.toNat + 64 ≤ 2 ^ 64) :
    ∃ result, findNextBit addr none nbits start invert = .ok result ∧
      Next (wanted addr invert) nbits.toNat start.toNat result.toNat := by
  rw [findNextBit]
  split_ifs with beyond
  · have empty := le_iff_toNat_le.mp beyond
    exact ⟨nbits, rfl, le_rfl, fun _ low high => absurd (empty.trans low) (not_le.mpr high),
      (lt_irrefl _).elim⟩
  · have inside : start.toNat < nbits.toNat := lt_iff_toNat_lt.mp (UInt64.not_le.mp beyond)
    rw [findWord_ok (start.toNat / 64) (by omega) rfl]
    have rounded := toNat_roundDown (show (64 : UInt64).toNat = 2 ^ 6 from rfl) start
    refine findNextBitLoop_next room far (by omega) (by omega) (by omega) ?_
      (searching_first addr invert start)
    have turns : maxTurns = 2 ^ 64 := rfl
    omega

end Search

/-- `find_next_zero_bit` finds the least number that is not in the set. -/
theorem findNextZeroBit_next {size offset : UInt64} (room : size.toNat ≤ 64 * addr.size)
    (far : size.toNat + 64 ≤ 2 ^ 64) :
    ∃ result, findNextZeroBit addr size offset = .ok result ∧
      Next (fun n => !bit addr n) size.toNat offset.toNat result.toNat := by
  have found := @findNextBit_next addr size ulongMax offset room far
  rw [funext (wanted_ulongMax addr)] at found
  exact found

end Xlinux
