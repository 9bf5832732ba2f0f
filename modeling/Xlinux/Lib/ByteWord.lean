/-
This file is about words that are made of bytes, the low byte first: the bytes
of a number, the word that stands in memory at an address, and a way to find the
first zero byte of a word without a look at each byte. Take one from every byte
of the word. The high bit of a byte that was clear is set now only if the byte
was zero, or if there is a zero byte below it; so the lowest of these bits
belongs to the first zero byte.
-/

import Xlinux.Lib.Bitmap
import Xlinux.Lib.Bytes

namespace Bytes

open Bitmap List

/-! ### Numbers and bytes -/

/-- The number with some bytes, the low byte first. -/
def littleEndian (bytes : List UInt8) : Nat := Nat.ofDigits 256 (bytes.map UInt8.toNat)

/-- The low bytes of a number. -/
def bytesOf : Nat → Nat → List UInt8
  | 0, _ => []
  | count + 1, value => UInt8.ofNat value :: bytesOf count (value / 256)

section Numbers

variable {byte : UInt8} {bytes more : List UInt8}

theorem littleEndian_cons : littleEndian (byte :: bytes) = byte.toNat + 256 * littleEndian bytes :=
  Nat.ofDigits_cons

theorem littleEndian_append :
    littleEndian (bytes ++ more) = littleEndian bytes + 256 ^ bytes.length * littleEndian more := by
  rw [littleEndian, map_append, Nat.ofDigits_append, length_map]
  rfl

theorem littleEndian_lt (bytes : List UInt8) : littleEndian bytes < 256 ^ bytes.length := by
  have digits : ∀ digit ∈ bytes.map UInt8.toNat, digit < 256 := by
    intro digit member
    obtain ⟨byte, -, rfl⟩ := mem_map.mp member
    exact byte.toNat_lt
  have bound := Nat.ofDigits_lt_base_pow_length (by decide) digits
  rwa [length_map] at bound

theorem length_bytesOf (count value : Nat) : (bytesOf count value).length = count := by
  induction count generalizing value with
  | zero => rfl
  | succ count ih => rw [bytesOf, length_cons, ih]

theorem bytesOf_littleEndian (bytes : List UInt8) :
    bytesOf bytes.length (littleEndian bytes) = bytes := by
  induction bytes with
  | nil => rfl
  | cons byte bytes ih =>
    have low : UInt8.ofNat (byte.toNat + 256 * littleEndian bytes) = byte :=
      UInt8.toNat_inj.mp (by rw [UInt8.toNat_ofNat']; have := byte.toNat_lt; omega)
    have high : (byte.toNat + 256 * littleEndian bytes) / 256 = littleEndian bytes := by
      have := byte.toNat_lt
      omega
    rw [length_cons, bytesOf, littleEndian_cons, low, high, ih]

/-- A bit of a number is a bit of one of its bytes. -/
theorem testBit_littleEndian (bytes : List UInt8) (place : Nat) :
    (littleEndian bytes).testBit place = (bytes.getD (place / 8) 0).toNat.testBit (place % 8) := by
  induction bytes generalizing place with
  | nil => exact (Nat.zero_testBit _).trans (Nat.zero_testBit _).symm
  | cons byte bytes ih =>
    rw [littleEndian_cons, add_comm, Nat.testBit_two_pow_mul_add _ byte.toNat_lt]
    split_ifs with low
    · rw [Nat.div_eq_of_lt low, Nat.mod_eq_of_lt low]
      rfl
    · rw [ih, show place / 8 = (place - 8) / 8 + 1 by omega,
        show (place - 8) % 8 = place % 8 by omega, getD_cons_succ]

end Numbers

/-! ### The lowest bit -/

theorem wordBit_eq_testBit (word : UInt64) (place : Nat) :
    wordBit word place = word.toNat.testBit place := rfl

/-- The ones below the lowest set bit of a word. -/
theorem toNat_below_lowest {word : UInt64} {place : Nat} (set : wordBit word place = true)
    (lowest : ∀ below < place, wordBit word below = false) :
    ((word - 1) &&& ~~~word).toNat = 2 ^ place - 1 := by
  have low : word.toNat % 2 ^ (place + 1) = 2 ^ place := by
    refine Nat.eq_of_testBit_eq fun bit => ?_
    rw [Nat.testBit_mod_two_pow, Nat.testBit_two_pow, ← wordBit_eq_testBit]
    rcases lt_trichotomy bit place with less | rfl | more
    · rw [lowest bit less, Bool.and_false, decide_eq_false (by omega)]
    · rw [set, decide_eq_true (Nat.lt_succ_self _), decide_eq_true rfl, Bool.and_true]
    · rw [decide_eq_false (by omega), decide_eq_false (by omega), Bool.false_and]
  have positive := Nat.two_pow_pos place
  have whole := Nat.div_add_mod word.toNat (2 ^ (place + 1))
  rw [low] at whole
  generalize word.toNat / 2 ^ (place + 1) = rest at whole
  have small : place < 64 := (Nat.pow_lt_pow_iff_right (by decide)).mp
    ((Nat.le.intro ((add_comm ..).trans whole)).trans_lt word.toNat_lt)
  have pred : (word - 1).toNat = 2 ^ (place + 1) * rest + (2 ^ place - 1) := by
    rw [UInt64.toNat_sub_of_le _ _ (UInt64.le_iff_toNat_le.mpr (show 1 ≤ _ by omega)), ← whole]
    exact Nat.add_sub_assoc positive _
  refine Nat.eq_of_testBit_eq fun bit => ?_
  rw [UInt64.toNat_and, Nat.testBit_and, UInt64.toNat_not, Nat.sub_sub, add_comm 1,
    Nat.testBit_two_pow_sub_succ word.toNat_lt, pred, ← whole,
    Nat.testBit_two_pow_mul_add _ (by omega),
    Nat.testBit_two_pow_mul_add _ (by omega), Nat.testBit_two_pow_sub_one]
  -- Above the lowest bit the two words have the same bits.
  split_ifs with below
  · rw [Nat.testBit_two_pow]
    grind
  · rw [decide_eq_false (by omega : ¬ bit < place), Bool.and_left_comm, Bool.and_not_self,
      Bool.and_false]

/-! ### The first zero byte -/

/-- A one in every byte. -/
def oneBytes : UInt64 := 0x0101010101010101

/-- The high bit of every byte. -/
def highBits : UInt64 := 0x8080808080808080

/-- The high bits of the bytes that are clear in a word and set after a one was taken from every
byte. -/
def borrowed (word : UInt64) : UInt64 := ((word - oneBytes) &&& ~~~word) &&& highBits

theorem wordBit_highBits {place : Nat} (small : place < 64) :
    wordBit highBits place = decide (place % 8 = 7) := by
  decide +revert

section ZeroByte

variable {word : UInt64} {bytes nonzero rest : List UInt8}

theorem toNat_pred {byte : UInt8} (some : byte ≠ 0) : (byte - 1).toNat + 1 = byte.toNat := by
  have positive : 1 ≤ byte.toNat :=
    Nat.one_le_iff_ne_zero.mpr fun zero => some (UInt8.toNat_inj.mp zero)
  have less : (1 : UInt8) ≤ byte := UInt8.le_iff_toNat_le.mpr positive
  rw [UInt8.toNat_sub_of_le _ _ less]
  exact Nat.sub_add_cancel positive

theorem littleEndian_pred (some : ∀ byte ∈ bytes, byte ≠ 0) :
    littleEndian bytes =
      littleEndian (bytes.map (· - 1)) + littleEndian (List.replicate bytes.length 1) := by
  induction bytes with
  | nil => rfl
  | cons byte bytes ih =>
    have one := toNat_pred (some byte mem_cons_self)
    rw [map_cons, length_cons, replicate_succ, littleEndian_cons, littleEndian_cons,
      littleEndian_cons, ih (forall_mem_cons.mp some).2]
    show _ = _ + (1 + _)
    omega

section

variable (noZero : ∀ byte ∈ nonzero, byte ≠ 0)

include noZero

/-- Taking a one from every byte takes it from each of the nonzero bytes at the low end, without a
borrow from the others. -/
theorem sub_oneBytes (made : word.toNat = littleEndian (nonzero ++ rest))
    (eight : nonzero.length + rest.length = 8) :
    (word - oneBytes).toNat = littleEndian (nonzero.map (· - 1)) + 256 ^ nonzero.length *
      ((256 ^ rest.length - littleEndian (List.replicate rest.length 1) + littleEndian rest) %
        256 ^ rest.length) := by
  have low := littleEndian_lt (nonzero.map (· - 1))
  have onesLow := littleEndian_lt (replicate rest.length 1)
  have onesHigh := littleEndian_lt (replicate nonzero.length 1)
  have ones : littleEndian (replicate nonzero.length 1 ++ replicate rest.length 1) =
      0x0101010101010101 := by
    rw [replicate_append_replicate, eight]
    decide
  have size : 2 ^ 64 = 256 ^ nonzero.length * 256 ^ rest.length := by
    rw [← pow_add, eight]
    rfl
  rw [littleEndian_append, length_replicate] at ones
  rw [littleEndian_append, littleEndian_pred noZero] at made
  rw [length_map] at low
  rw [UInt64.toNat_sub, show oneBytes.toNat = 0x0101010101010101 from rfl, made, ← ones, size]
  generalize littleEndian (nonzero.map (· - 1)) = pred at *
  generalize 256 ^ nonzero.length = lowSize at *
  generalize 256 ^ rest.length = highSize at *
  generalize littleEndian (replicate nonzero.length 1) = lowOnes at *
  generalize littleEndian (replicate rest.length 1) = highOnes at *
  have sum : lowSize * highSize - (lowOnes + lowSize * highOnes) +
      (pred + lowOnes + lowSize * littleEndian rest) =
      pred + lowSize * (highSize - highOnes + littleEndian rest) := by
    rw [mul_add, Nat.mul_sub]
    omega
  rw [sum, Nat.mod_mul, Nat.add_mul_mod_self_left, Nat.mod_eq_of_lt low,
    Nat.add_mul_div_left _ _ (by omega), Nat.div_eq_of_lt low, zero_add]

omit noZero in
theorem testBit_seven {byte : Nat} (small : byte < 256) : byte.testBit 7 = decide (128 ≤ byte) := by
  rw [Nat.testBit_eq_decide_div_mod_eq]
  exact decide_eq_decide.mpr (by omega)

/-- No high bit of the nonzero bytes at the low end is found. -/
theorem wordBit_borrowed_low (made : word.toNat = littleEndian (nonzero ++ rest))
    (eight : nonzero.length + rest.length = 8) {place : Nat}
    (low : place < 8 * nonzero.length) : wordBit (borrowed word) place = false := by
  have inside : place / 8 < nonzero.length := by omega
  have insideMap : place / 8 < (nonzero.map (· - 1)).length := by rwa [length_map]
  have differ := sub_oneBytes noZero made eight
  rw [add_comm, show 256 = 2 ^ 8 from rfl, ← pow_mul] at differ
  have less := littleEndian_lt (nonzero.map (· - 1))
  rw [length_map, show 256 = 2 ^ 8 from rfl, ← pow_mul] at less
  rw [borrowed, wordBit_and, wordBit_and, wordBit_not _ (by omega), wordBit_highBits (by omega),
    wordBit_eq_testBit, wordBit_eq_testBit, differ, Nat.testBit_two_pow_mul_add _ less,
    if_pos low, made, testBit_littleEndian, testBit_littleEndian, getD_append _ _ _ _ inside,
    getD_eq_getElem _ _ insideMap, getD_eq_getElem _ _ inside, getElem_map]
  by_cases high : place % 8 = 7
  · have member := noZero _ (getElem_mem inside)
    have one := toNat_pred member
    have small := (nonzero[place / 8]).toNat_lt
    rw [high, testBit_seven (by omega), testBit_seven small, ← decide_not, ← Bool.decide_and,
      ← Bool.decide_and]
    exact decide_eq_false (by omega)
  · rw [decide_eq_false high, Bool.and_false]

section

variable (made : word.toNat = littleEndian (nonzero ++ 0 :: rest))
  (eight : nonzero.length + (rest.length + 1) = 8)

include made eight

/-- The high bit of the first zero byte is found. -/
theorem wordBit_borrowed_zero :
    wordBit (borrowed word) (8 * nonzero.length + 7) = true := by
  have differ := sub_oneBytes noZero made eight
  have less := littleEndian_lt (nonzero.map (· - 1))
  have onesLess := littleEndian_lt (replicate rest.length 1)
  rw [length_map, show 256 = 2 ^ 8 from rfl, ← pow_mul] at less
  rw [length_replicate] at onesLess
  -- The zero byte becomes all ones.
  have ones : (256 ^ (rest.length + 1) - littleEndian (replicate (rest.length + 1) 1) +
      littleEndian (0 :: rest)) % 256 ^ (rest.length + 1) % 256 = 255 := by
    rw [Nat.mod_mod_of_dvd _ (dvd_pow_self 256 (Nat.succ_ne_zero _)), pow_succ', replicate_succ,
      littleEndian_cons]
    show (256 * _ - (1 + 256 * _) + (0 + 256 * _)) % 256 = 255
    omega
  generalize (256 ^ (rest.length + 1) - littleEndian (replicate (rest.length + 1) 1) +
    littleEndian (0 :: rest)) % 256 ^ (rest.length + 1) = high at differ ones
  have set : (word - oneBytes).toNat.testBit (8 * nonzero.length + 7) = true := by
    rw [differ, add_comm, show 256 = 2 ^ 8 from rfl, ← pow_mul, Nat.testBit_two_pow_mul_add _ less,
      if_neg (by omega), Nat.add_sub_cancel_left, Nat.testBit_eq_decide_div_mod_eq]
    exact decide_eq_true (by omega)
  have clear : word.toNat.testBit (8 * nonzero.length + 7) = false := by
    rw [made, testBit_littleEndian, show (8 * nonzero.length + 7) / 8 = nonzero.length by omega,
      getD_append_right _ _ _ _ (le_refl _), Nat.sub_self]
    exact Nat.zero_testBit _
  rw [borrowed, wordBit_and, wordBit_and, wordBit_not _ (by omega), wordBit_highBits (by omega),
    wordBit_eq_testBit, wordBit_eq_testBit, set, clear, decide_eq_true (by omega)]
  rfl

/-- The position of the first zero byte. -/
theorem toNat_below_borrowed :
    ((borrowed word - 1) &&& ~~~borrowed word).toNat = 2 ^ (8 * nonzero.length + 7) - 1 := by
  refine toNat_below_lowest (wordBit_borrowed_zero noZero made eight) fun below less => ?_
  by_cases low : below < 8 * nonzero.length
  · exact wordBit_borrowed_low noZero made eight low
  · rw [borrowed, wordBit_and, wordBit_highBits (by omega), decide_eq_false (by omega),
      Bool.and_false]

end

/-- Without a zero byte nothing is found. -/
theorem borrowed_eq_zero (made : word.toNat = littleEndian nonzero) (eight : nonzero.length = 8) :
    borrowed word = 0 := by
  rw [← append_nil nonzero] at made
  refine word_ext fun place small => ?_
  rw [wordBit_borrowed_low noZero made eight (by omega), wordBit_zero]

end

/-- Ones instead of the low bytes. -/
theorem toNat_or_lowOnes {mask : UInt64} {count : Nat} (made : word.toNat = littleEndian bytes)
    (ones : mask.toNat = 2 ^ (8 * count) - 1) :
    (word ||| mask).toNat = littleEndian (List.replicate count 255 ++ bytes.drop count) := by
  refine Nat.eq_of_testBit_eq fun place => ?_
  rw [UInt64.toNat_or, Nat.testBit_or, made, ones, Nat.testBit_two_pow_sub_one,
    testBit_littleEndian, testBit_littleEndian]
  by_cases low : place < 8 * count
  · have inside : place / 8 < (replicate count (255 : UInt8)).length := by
      rw [length_replicate]
      omega
    have set : ∀ bit < 8, (255 : UInt8).toNat.testBit bit = true := by decide
    rw [decide_eq_true low, Bool.or_true, getD_append _ _ _ _ inside, getD_eq_getElem _ _ inside,
      getElem_replicate, set _ (Nat.mod_lt _ (by decide))]
  · have outside : (replicate count (255 : UInt8)).length ≤ place / 8 := by
      rw [length_replicate]
      omega
    rw [decide_eq_false low, Bool.or_false, getD_append_right _ _ _ _ outside, length_replicate,
      getD_eq_getElem?_getD, getD_eq_getElem?_getD, getElem?_drop]
    congr 4
    rw [length_replicate] at outside
    omega

end ZeroByte

/-! ### Words in memory -/

/-- The bytes from an address on. -/
def slice (memory : Memory) : Nat → UInt64 → List UInt8
  | 0, _ => []
  | count + 1, base => memory base :: slice memory count (base + 1)

/-- The 64-bit word at an address. -/
def loadWord (memory : Memory) (base : UInt64) : UInt64 :=
  UInt64.ofNat (littleEndian (slice memory 8 base))

/-- A word is written, the low byte first. -/
def storeWord (memory : Memory) (base word : UInt64) : Memory := fun addr =>
  (bytesOf 8 word.toNat)[(addr - base).toNat]?.getD (memory addr)

section Words

variable {memory : Memory} {base : UInt64} {bytes : List UInt8}

theorem slice_eq_map (memory : Memory) (count : Nat) (base : UInt64) :
    slice memory count base = (List.range count).map fun index =>
      memory (base + UInt64.ofNat index) := by
  induction count generalizing base with
  | zero => rfl
  | succ count ih =>
    rw [slice, ih, range_succ_eq_map, map_cons, map_map, show UInt64.ofNat 0 = 0 from rfl,
      UInt64.add_zero]
    simp only [Function.comp_def, Nat.succ_eq_add_one, add_comm _ 1, UInt64.ofNat_add,
      UInt64.add_assoc]
    rfl

theorem length_slice (count : Nat) : (slice memory count base).length = count := by
  rw [slice_eq_map, length_map, length_range]

theorem getElem?_slice {count index : Nat} (inside : index < count) :
    (slice memory count base)[index]? = some (memory (base + UInt64.ofNat index)) := by
  rw [slice_eq_map, getElem?_map, getElem?_range inside]
  rfl

theorem toNat_loadWord : (loadWord memory base).toNat = littleEndian (slice memory 8 base) := by
  have bound := littleEndian_lt (slice memory 8 base)
  rw [length_slice] at bound
  exact UInt64.toNat_ofNat_of_lt' bound

/-- A word is copied. -/
theorem storeWord_loadWord (user memory : Memory) (src base addr : UInt64) :
    storeWord memory base (loadWord user src) addr =
      if (addr - base).toNat < 8 then user (src + (addr - base)) else memory addr := by
  have bytes := bytesOf_littleEndian (slice user 8 src)
  rw [length_slice, ← toNat_loadWord] at bytes
  rw [storeWord, bytes]
  split_ifs with inside
  · rw [getElem?_slice inside, UInt64.ofNat_toNat, Option.getD_some]
  · rw [getElem?_eq_none (by rw [length_slice]; omega), Option.getD_none]

theorem Spells.slice_eq (spells : Spells memory base bytes) (more : Nat) :
    ∃ rest, slice memory (bytes.length + more) base = bytes ++ rest := by
  induction bytes generalizing base with
  | nil => exact ⟨_, rfl⟩
  | cons byte bytes ih =>
    obtain ⟨rest, behind⟩ := ih spells.2
    rw [length_cons, Nat.add_right_comm, slice, behind, spells.1]
    exact ⟨rest, rfl⟩

theorem spells_iff_slice : Spells memory base bytes ↔ slice memory bytes.length base = bytes := by
  induction bytes generalizing base with
  | nil => exact iff_of_true trivial rfl
  | cons byte bytes ih =>
    rw [Spells, ih, length_cons, slice, cons.injEq]

theorem Spells.getElem? (spells : Spells memory base bytes) {index : Nat}
    (inside : index < bytes.length) :
    bytes[index]? = some (memory (base + UInt64.ofNat index)) := by
  rw [← spells_iff_slice.mp spells]
  exact getElem?_slice inside

end Words

end Bytes
