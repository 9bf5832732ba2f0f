/-
This file fixes the 64-bit words of the kernel and the arithmetic macros of
`include/types.h` and `include/page.h` over them. A C expression of type `u64`
or `unsigned long` is a `UInt64`, so it wraps; the lemmas say what each macro
computes on the underlying numbers.
-/

import Mathlib

namespace Xlinux

open Nat UInt64

/-- `PHYS_ADDR_MAX`. -/
def physAddrMax : UInt64 := 0xffffffffffffffff

/-- `ULLONG_MAX`. -/
def ullongMax : UInt64 := 0xffffffffffffffff

@[simp]
theorem toNat_physAddrMax : physAddrMax.toNat = 2 ^ 64 - 1 := rfl

/-- The macro `min(a, b)`. -/
def cmin (a b : UInt64) : UInt64 := if a < b then a else b

/-- The macro `max(a, b)`. -/
def cmax (a b : UInt64) : UInt64 := if a > b then a else b

/-- The macro `clamp(val, lo, hi)`. -/
def clamp (val lo hi : UInt64) : UInt64 := cmin (cmax val lo) hi

/-- The macro `round_down(x, y)`. -/
def roundDown (x y : UInt64) : UInt64 := x &&& ~~~(y - 1)

/-- `PAGE_SHIFT`. -/
def pageShift : UInt64 := 12

/-- `PAGE_SIZE`. -/
def pageSize : UInt64 := 1 <<< pageShift

/-- The macro `PFN_UP(x)`. -/
def pfnUp (x : UInt64) : UInt64 := (x + pageSize - 1) >>> pageShift

/-- The macro `PFN_DOWN(x)`. -/
def pfnDown (x : UInt64) : UInt64 := x >>> pageShift

/-- `ALIGN`. -/
def alignTo (x a : UInt64) : UInt64 := (x + (a - 1)) &&& ~~~(a - 1)

/-- `_ALIGN(x, a)` for an `unsigned int`: the alignment is converted to `unsigned int` first. -/
def alignUInt (x : UInt32) (a : UInt64) : UInt32 := (x + (a.toUInt32 - 1)) &&& ~~~(a.toUInt32 - 1)

/-- `IS_ERR_VALUE`. -/
def isErrValue (x : UInt64) : Bool := x ≥ -4095

/-- The conversion of a `u64` to `int`: the low 32 bits, as a signed number. -/
def toCInt (x : UInt64) : Int := (x.toNat : Int).bmod (2 ^ 32)

/-- The conversion of an `int` to `u64` or `unsigned long`. -/
def ofCInt (i : Int) : UInt64 := UInt64.ofNat (i % 2 ^ 64).toNat

/-- `1UL << order`. -/
def oneShl (order : Nat) : UInt64 := 1 <<< UInt64.ofNat order

/-- One test of `__ffs`: the low `bits` bits of the word are skipped when they are zero. -/
def ffsStep (mask : UInt64) (bits : Nat) (found : Nat × UInt64) : Nat × UInt64 :=
  if found.2 &&& mask = 0 then (found.1 + bits, found.2 >>> UInt64.ofNat bits) else found

/-- `__ffs`. -/
def ffs (word : UInt64) : Nat :=
  let found := ffsStep 0xffffffff 32 (0, word)
  let found := ffsStep 0xffff 16 found
  let found := ffsStep 0xff 8 found
  let found := ffsStep 0xf 4 found
  let found := ffsStep 0x3 2 found
  if found.2 &&& 0x1 = 0 then found.1 + 1 else found.1

/-- One test of `__fls`: the high `bits` bits of the word are skipped when they are zero. -/
def flsStep (bits : Nat) (found : Nat × UInt64) : Nat × UInt64 :=
  if found.2 &&& (0xffffffffffffffff <<< UInt64.ofNat (64 - bits)) = 0 then
    (found.1 - bits, found.2 <<< UInt64.ofNat bits)
  else found

/-- `__fls`. -/
def fls (word : UInt64) : Nat :=
  let found := flsStep 32 (63, word)
  let found := flsStep 16 found
  let found := flsStep 8 found
  let found := flsStep 4 found
  let found := flsStep 2 found
  if found.2 &&& 0x8000000000000000 = 0 then found.1 - 1 else found.1

/-- `fls64`. -/
def fls64 (x : UInt64) : Nat := if x = 0 then 0 else fls x + 1

/-- `PAGE_ALIGN`. -/
def pageAlign (addr : UInt64) : UInt64 := (addr + pageSize - 1) &&& ~~~(pageSize - 1)

/-! ### The numbers behind the words -/

theorem toNat_cmin (a b : UInt64) : (cmin a b).toNat = min a.toNat b.toNat := by
  unfold cmin
  split
  · rename_i less
    rw [min_eq_left (lt_iff_toNat_lt.mp less).le]
  · rename_i notLess
    rw [lt_iff_toNat_lt, not_lt] at notLess
    rw [min_eq_right notLess]

theorem toNat_cmax (a b : UInt64) : (cmax a b).toNat = max a.toNat b.toNat := by
  unfold cmax
  split
  · rename_i greater
    rw [max_eq_left (lt_iff_toNat_lt.mp greater).le]
  · rename_i notGreater
    rw [gt_iff_lt, lt_iff_toNat_lt, not_lt] at notGreater
    rw [max_eq_right notGreater]

theorem toNat_clamp (val lo hi : UInt64) :
    (clamp val lo hi).toNat = min (max val.toNat lo.toNat) hi.toNat := by
  rw [clamp, toNat_cmin, toNat_cmax]

theorem toNat_ofCInt (i : Int) : (ofCInt i).toNat = (i % 2 ^ 64).toNat := by
  have bound : (i % 2 ^ 64).toNat < 2 ^ 64 := by omega
  rw [ofCInt, toNat_ofNat', mod_eq_of_lt bound]

theorem toNat_ofCInt_natCast {n : Nat} (bound : n < 2 ^ 64) : (ofCInt n).toNat = n := by
  rw [toNat_ofCInt]
  omega

/-- The conversion to `int` of a word whose low half is `low`. -/
theorem toCInt_eq {x : UInt64} {low : Nat} (half : x.toNat % 2 ^ 32 = low) :
    toCInt x = if low < 2 ^ 31 then (low : Int) else (low : Int) - 2 ^ 32 := by
  unfold toCInt
  rw [Int.bmod_def]
  split <;> split <;> omega

theorem toCInt_ofNat {n : Nat} (bound : n < 2 ^ 31) : toCInt (UInt64.ofNat n) = n := by
  have half : (ofNat n).toNat % 2 ^ 32 = n := by
    rw [toNat_ofNat']
    omega
  rw [toCInt_eq half, if_pos bound]

theorem toCInt_ofNat_sub_one {n : Nat} (bound : n < 2 ^ 31) :
    toCInt (UInt64.ofNat n - 1) = n - 1 := by
  have half : (ofNat n - 1).toNat % 2 ^ 32 = (2 ^ 32 - 1 + n) % 2 ^ 32 := by
    rw [UInt64.toNat_sub, toNat_ofNat', UInt64.toNat_one]
    omega
  rw [toCInt_eq half]
  split <;> omega

theorem toNat_add_of_lt {a b : UInt64} (fits : a.toNat + b.toNat < 2 ^ 64) :
    (a + b).toNat = a.toNat + b.toNat := by
  rw [UInt64.toNat_add, mod_eq_of_lt fits]

/-- A sum that is greater than a summand has not wrapped around. -/
theorem toNat_add_of_lt_self {a b : UInt64} (wide : a < a + b) :
    (a + b).toNat = a.toNat + b.toNat := by
  have less := lt_iff_toNat_lt.mp wide
  have bLt := b.toNat_lt
  rw [UInt64.toNat_add] at less ⊢
  omega

theorem toNat_sub_of_toNat_le {a b : UInt64} (less : b.toNat ≤ a.toNat) :
    (a - b).toNat = a.toNat - b.toNat :=
  UInt64.toNat_sub_of_le a b (UInt64.le_iff_toNat_le.mpr less)

theorem toNat_add_ofNat {a : UInt64} {n : Nat} (fits : a.toNat + n < 2 ^ 64) :
    (a + UInt64.ofNat n).toNat = a.toNat + n := by
  rw [UInt64.toNat_add, toNat_ofNat']
  omega

theorem toNat_sub_ofNat {a : UInt64} {n : Nat} (less : n ≤ a.toNat) :
    (a - UInt64.ofNat n).toNat = a.toNat - n := by
  have value := toNat_ofNat_of_lt' (less.trans_lt a.toNat_lt)
  rw [toNat_sub_of_toNat_le (value.trans_le less), value]

/-- A mask splits a bit vector into two parts that add up to it. -/
theorem toNat_and_add_toNat_and_not_bitVec {width : Nat} (x mask : BitVec width) :
    (x &&& mask).toNat + (x &&& ~~~mask).toNat = x.toNat := by
  have disjoint : (x &&& mask) &&& (x &&& ~~~mask) = (0 : BitVec width) := by
    ext index bound
    simp only [BitVec.getElem_and, BitVec.getElem_not]
    cases mask[index] <;> simp
  have joined : (x &&& mask) ||| (x &&& ~~~mask) = x := by
    ext index bound
    simp only [BitVec.getElem_and, BitVec.getElem_not, BitVec.getElem_or]
    cases mask[index] <;> simp
  have sum := BitVec.toNat_add_of_and_eq_zero disjoint
  rw [BitVec.add_eq_or_of_and_eq_zero _ _ disjoint, joined] at sum
  exact sum.symm

/-- Rounding down to a power of two drops the remainder. -/
theorem toNat_roundDown {y : UInt64} {shift : Nat} (power : y.toNat = 2 ^ shift) (x : UInt64) :
    (roundDown x y).toNat = x.toNat - x.toNat % 2 ^ shift := by
  have positive : 1 ≤ y.toNat := power ▸ Nat.one_le_two_pow
  have mask : (y - 1).toNat = 2 ^ shift - 1 := by
    rw [toNat_sub_of_toNat_le (show (1 : UInt64).toNat ≤ y.toNat from positive), power]
    rfl
  have low : (x &&& (y - 1)).toNat = x.toNat % 2 ^ shift := by
    rw [UInt64.toNat_and, mask, and_two_pow_sub_one_eq_mod]
  have sum : (x &&& (y - 1)).toNat + (x &&& ~~~(y - 1)).toNat = x.toNat :=
    toNat_and_add_toNat_and_not_bitVec x.toBitVec (y - 1).toBitVec
  unfold roundDown
  omega

@[simp]
theorem toNat_pageSize : pageSize.toNat = 4096 := rfl

theorem toNat_pfnDown (x : UInt64) : (pfnDown x).toNat = x.toNat / 4096 := by
  rw [pfnDown, UInt64.toNat_shiftRight, shiftRight_eq_div_pow]
  rfl

theorem toNat_pageIndex (pos : UInt64) : (pos >>> pageShift).toNat = pos.toNat / 4096 :=
  toNat_pfnDown pos

theorem toNat_shiftLeft_pageShift (pfn : UInt64) :
    (pfn <<< pageShift).toNat = pfn.toNat * 4096 % 2 ^ 64 := by
  rw [UInt64.toNat_shiftLeft, show pageShift.toNat % 64 = 12 from rfl, shiftLeft_eq]

/-- `PFN_UP` rounds up, unless the sum wraps: above `2 ^ 64 - PAGE_SIZE` it is `0`. -/
theorem toNat_pfnUp (x : UInt64) :
    (pfnUp x).toNat = if x.toNat ≤ 2 ^ 64 - 4096 then (x.toNat + 4095) / 4096 else 0 := by
  have bound := toNat_lt x
  have shifted : (pfnUp x).toNat = (x + pageSize - 1).toNat / 4096 := by
    rw [pfnUp, UInt64.toNat_shiftRight, shiftRight_eq_div_pow]
    rfl
  have sum : (x + pageSize - 1).toNat = (x.toNat + 4095) % 2 ^ 64 := by
    change (2 ^ 64 - 1 + (x.toNat + 4096) % 2 ^ 64) % 2 ^ 64 = (x.toNat + 4095) % 2 ^ 64
    omega
  split <;> omega

theorem toNat_oneShl {order : Nat} (bound : order < 64) : (oneShl order).toNat = 2 ^ order := by
  have small : (ofNat order).toNat = order := by
    rw [toNat_ofNat', mod_eq_of_lt (by omega)]
  have fits : 2 ^ order < 2 ^ 64 := Nat.pow_lt_pow_right (by decide) bound
  rw [oneShl, UInt64.toNat_shiftLeft, small, mod_eq_of_lt bound,
    UInt64.toNat_one, one_shiftLeft, mod_eq_of_lt fits]

/-! ### The first set bit -/

/-- What the tests of `__ffs` keep: the word is what is left of it, shifted by the bits that
were skipped, and there is a set bit among the `bits` low ones of what is left. -/
def FfsInvariant (word : UInt64) (bits : Nat) (found : Nat × UInt64) : Prop :=
  word.toNat = found.2.toNat * 2 ^ found.1 ∧ found.2.toNat % 2 ^ bits ≠ 0

theorem toNat_and_mask (word : UInt64) {mask : UInt64} {bits : Nat}
    (low : mask.toNat = 2 ^ bits - 1) : (word &&& mask).toNat = word.toNat % 2 ^ bits := by
  rw [UInt64.toNat_and, low, and_two_pow_sub_one_eq_mod]

theorem toNat_pageOffset (pos : UInt64) : (pos &&& (pageSize - 1)).toNat = pos.toNat % 4096 :=
  toNat_and_mask pos (show (pageSize - 1).toNat = 2 ^ 12 - 1 from rfl)

/-- A test leaves a set bit among the low half of the bits that had one. -/
theorem ffsStep_invariant {word mask : UInt64} {bits : Nat} {found : Nat × UInt64}
    (kept : FfsInvariant word (bits + bits) found) (low : mask.toNat = 2 ^ bits - 1)
    (bound : bits < 64) : FfsInvariant word bits (ffsStep mask bits found) := by
  obtain ⟨value, nonzero⟩ := kept
  unfold ffsStep
  split_ifs with zero
  · have small : (ofNat bits).toNat % 64 = bits := by
      rw [toNat_ofNat']
      omega
    have divides : found.2.toNat % 2 ^ bits = 0 := by
      rw [← toNat_and_mask _ low, zero]
      rfl
    have shifted : (found.2 >>> ofNat bits).toNat = found.2.toNat / 2 ^ bits := by
      rw [UInt64.toNat_shiftRight, small, shiftRight_eq_div_pow]
    rw [pow_add, mod_mul, divides, zero_add] at nonzero
    refine ⟨?_, shifted ▸ right_ne_zero_of_mul nonzero⟩
    rw [shifted, pow_add, mul_comm (2 ^ found.1), ← mul_assoc,
      Nat.div_mul_cancel (dvd_of_mod_eq_zero divides), value]
  · rw [← UInt64.toNat_inj, toNat_and_mask _ low] at zero
    exact ⟨value, zero⟩

/-- What the tests of `__ffs` but the last one leave. -/
def ffsTests (word : UInt64) : Nat × UInt64 :=
  ffsStep 0x3 2
    (ffsStep 0xf 4 (ffsStep 0xff 8 (ffsStep 0xffff 16 (ffsStep 0xffffffff 32 (0, word)))))

theorem ffs_eq (word : UInt64) :
    ffs word = if (ffsTests word).2 &&& 0x1 = 0 then (ffsTests word).1 + 1 else (ffsTests word).1 :=
  rfl

theorem ffsTests_invariant {word : UInt64} (nonzero : word ≠ 0) :
    FfsInvariant word 2 (ffsTests word) := by
  have start : FfsInvariant word (32 + 32) (0, word) := by
    refine ⟨(Nat.mul_one _).symm, ?_⟩
    rw [mod_eq_of_lt word.toNat_lt]
    exact fun zero => nonzero (UInt64.toNat_inj.mp zero)
  have step32 := @ffsStep_invariant word 0xffffffff 32 _ start rfl (by decide)
  have step16 := @ffsStep_invariant word 0xffff 16 _ step32 rfl (by decide)
  have step8 := @ffsStep_invariant word 0xff 8 _ step16 rfl (by decide)
  have step4 := @ffsStep_invariant word 0xf 4 _ step8 rfl (by decide)
  exact @ffsStep_invariant word 0x3 2 _ step4 rfl (by decide)

/-- `__ffs` finds a set bit: what is above it is odd. -/
theorem ffs_odd {word : UInt64} (nonzero : word ≠ 0) :
    ∃ rest, word.toNat = (2 * rest + 1) * 2 ^ ffs word := by
  obtain ⟨value, _⟩ := ffsTests_invariant nonzero
  have last := toNat_and_mask (ffsTests word).2 (show (0x1 : UInt64).toNat = 2 ^ 1 - 1 from rfl)
  rw [ffs_eq, value]
  split_ifs with zero
  · rw [zero, UInt64.toNat_zero] at last
    refine ⟨(ffsTests word).2.toNat / 2 / 2, ?_⟩
    rw [pow_succ', ← mul_assoc]
    congr 1
    omega
  · rw [← UInt64.toNat_inj, UInt64.toNat_zero] at zero
    refine ⟨(ffsTests word).2.toNat / 2, ?_⟩
    congr 1
    omega

/-- The word is a multiple of the power of two that `__ffs` finds. -/
theorem two_pow_ffs_dvd (word : UInt64) : 2 ^ ffs word ∣ word.toNat := by
  by_cases zero : word = 0
  · rw [zero]
    exact dvd_zero _
  · obtain ⟨_, value⟩ := ffs_odd zero
    exact value ▸ dvd_mul_left _ _

theorem or_and_distrib_word (a b c : UInt64) : (a ||| b) &&& c = (a &&& c) ||| (b &&& c) := by
  refine UInt64.eq_of_toBitVec_eq ?_
  ext index bound
  simp [Bool.and_or_distrib_right]

theorem and_not_of_and_eq_zero {a mask : UInt64} (free : a &&& mask = 0) : a &&& ~~~mask = a := by
  have split : (mask ||| ~~~mask) &&& a = a := by
    rw [or_not_self, UInt64.and_comm]
    exact and_neg_one
  rw [or_and_distrib_word, UInt64.and_comm, free, UInt64.zero_or, UInt64.and_comm] at split
  exact split

/-! ### Alignment -/

section Align

variable {align x : UInt64} {shift : Nat} (power : align.toNat = 2 ^ shift)

include power

theorem toNat_mask : (align - 1).toNat = align.toNat - 1 := by
  have positive : (1 : UInt64).toNat ≤ align.toNat := power ▸ Nat.one_le_two_pow
  exact toNat_sub_of_toNat_le positive

/-- Alignment goes to the next multiple, unless it wraps around. -/
theorem alignTo_spec (room : x.toNat + (align.toNat - 1) < 2 ^ 64) :
    align.toNat ∣ (alignTo x align).toNat ∧ x.toNat ≤ (alignTo x align).toNat ∧
      (alignTo x align).toNat ≤ x.toNat + (align.toNat - 1) ∧
      ∀ start, align.toNat ∣ start → x.toNat ≤ start → (alignTo x align).toNat ≤ start := by
  have positive : 0 < align.toNat := power ▸ Nat.two_pow_pos shift
  have sum : (x + (align - 1)).toNat = x.toNat + (align.toNat - 1) := by
    rw [toNat_add_of_lt (by rwa [toNat_mask power]), toNat_mask power]
  have small := mod_lt (x.toNat + (align.toNat - 1)) positive
  have rounded : (alignTo x align).toNat = _ := toNat_roundDown power _
  rw [rounded, ← power, sum]
  refine ⟨dvd_sub_mod _, by omega, sub_le .., ?_⟩
  rintro start ⟨count, rfl⟩ above
  have next : x.toNat + (align.toNat - 1) < align.toNat * (count + 1) := by
    rw [mul_succ]
    omega
  have quotient : (x.toNat + (align.toNat - 1)) / align.toNat ≤ count :=
    Nat.lt_succ_iff.mp (Nat.div_lt_of_lt_mul next)
  rw [← mul_div_self_eq_mod_sub_self]
  exact mul_le_mul_left _ quotient

theorem room_of_multiple {start : Nat} (aligned : align.toNat ∣ start) (low : x.toNat ≤ start)
    (small : start < 2 ^ 64) : x.toNat + (align.toNat - 1) < 2 ^ 64 := by
  have shiftLt : shift < 64 := by
    have alignLt := align.toNat_lt
    rw [power] at alignLt
    exact (Nat.pow_lt_pow_iff_right (by decide)).mp alignLt
  have divides : align.toNat ∣ 2 ^ 64 := power ▸ pow_dvd_pow 2 shiftLt.le
  have gap : align.toNat ≤ 2 ^ 64 - start :=
    le_of_dvd (Nat.sub_pos_of_lt small) (dvd_sub divides aligned)
  omega

end Align

/-- The least multiple of an alignment from a number on. -/
def alignNat (x a : Nat) : Nat := (x + (a - 1)) / a * a

theorem le_alignNat {x a : Nat} (positive : 0 < a) : x ≤ alignNat x a := by
  have whole := div_add_mod (x + (a - 1)) a
  have low := mod_lt (x + (a - 1)) positive
  rw [alignNat, mul_comm]
  omega

/-- Masking off the low bits of an `unsigned int` drops the remainder. -/
theorem toNat_and_not_uint {mask : UInt32} {shift : Nat} (low : mask.toNat = 2 ^ shift - 1)
    (x : UInt32) : (x &&& ~~~mask).toNat = x.toNat / 2 ^ shift * 2 ^ shift := by
  have sum : (x &&& mask).toNat + (x &&& ~~~mask).toNat = x.toNat :=
    toNat_and_add_toNat_and_not_bitVec x.toBitVec mask.toBitVec
  have whole := div_add_mod x.toNat (2 ^ shift)
  rw [UInt32.toNat_and, low, and_two_pow_sub_one_eq_mod] at sum
  rw [mul_comm]
  omega

/-- An alignment of 4 GiB and more is zero as an `unsigned int`, and masks everything off. -/
theorem toNat_alignMask {a : UInt64} {shift : Nat} (power : a.toNat = 2 ^ shift) :
    (a.toUInt32 - 1).toNat = 2 ^ min shift 32 - 1 := by
  have positive : 0 < 2 ^ shift := Nat.two_pow_pos shift
  rw [UInt32.toNat_sub, UInt64.toNat_toUInt32, power, UInt32.toNat_one]
  rcases lt_or_ge shift 32 with short | long
  · have small : 2 ^ shift < 2 ^ 32 := Nat.pow_lt_pow_right (by decide) short
    rw [min_eq_left short.le]
    omega
  · rw [min_eq_right long, mod_eq_zero_of_dvd (pow_dvd_pow 2 long)]
    rfl

/-- An `unsigned int` is aligned modulo `2 ^ 32`. -/
theorem alignUInt_ofNat {a : UInt64} {shift : Nat} (power : a.toNat = 2 ^ shift) (n : Nat) :
    alignUInt (UInt32.ofNat n) a = UInt32.ofNat (alignNat n (2 ^ shift)) := by
  apply UInt32.toNat_inj.mp
  have mask := toNat_alignMask power
  rw [alignUInt, toNat_and_not_uint mask, UInt32.toNat_add, mask, UInt32.toNat_ofNat',
    UInt32.toNat_ofNat', mod_add_mod, alignNat]
  rcases le_total shift 32 with short | long
  · have whole :
        2 ^ 32 = 2 ^ shift * 2 ^ (32 - shift) := by rw [← pow_add, Nat.add_sub_cancel' short]
    rw [min_eq_left short, whole, mod_mul_right_div_self, mul_comm (2 ^ shift) (2 ^ (32 - shift)),
      mul_mod_mul_right]
  · rw [min_eq_right long, div_eq_of_lt (mod_lt _ (by decide)), Nat.zero_mul]
    exact (mod_eq_zero_of_dvd ((pow_dvd_pow 2 long).mul_left _)).symm

/-- The alignment of an `unsigned int` is right as long as the result is one. -/
theorem toNat_alignUInt {x : UInt32} {a : UInt64} {shift : Nat} (power : a.toNat = 2 ^ shift)
    (fits : alignNat x.toNat (2 ^ shift) < 2 ^ 32) :
    (alignUInt x a).toNat = alignNat x.toNat (2 ^ shift) := by
  have rounded := alignUInt_ofNat power x.toNat
  rw [UInt32.ofNat_toNat] at rounded
  rw [rounded, UInt32.toNat_ofNat_of_lt' fits]

/-! ### Maxima -/

theorem toNat_max_word (a b : UInt64) : (max a b).toNat = max a.toNat b.toNat := by
  show (if a ≤ b then b else a).toNat = _
  split
  case isTrue less => exact (max_eq_right (le_iff_toNat_le.mp less)).symm
  case isFalse more =>
    exact (max_eq_left (Nat.le_of_not_le fun less => more (le_iff_toNat_le.mpr less))).symm

theorem zero_max_word (a : UInt64) : max 0 a = a :=
  UInt64.toNat_inj.mp ((toNat_max_word ..).trans (zero_max _))

theorem max_comm_word (a b : UInt64) : max a b = max b a :=
  UInt64.toNat_inj.mp (by rw [toNat_max_word, toNat_max_word, max_comm])

theorem max_assoc_word (a b c : UInt64) : max (max a b) c = max a (max b c) :=
  UInt64.toNat_inj.mp (by simp only [toNat_max_word, max_assoc])

end Xlinux
