/-
This file models how a string of a user is measured and copied: `strnlen_user` and
`strncpy_from_user` (`lib/string.c`) read whole words and look for a zero byte in
each of them (`include/word-at-a-time.h`). It proves that the length is the one of
the string, with the byte at its end, and that a string is copied exactly if the
whole words before the limit reach its end.
-/

import Xlinux.Kernel
import Xlinux.Lib.ByteWord
import Xlinux.Word

namespace Xlinux

open Bytes List UInt64 Nat

/-! ### A zero byte in a word -/

/-- `REPEAT_BYTE`. -/
def repeatByte (x : UInt64) : UInt64 := (0xffffffffffffffff / 0xff) * x

/-- `has_zero`. -/
def hasZero (val : UInt64) : UInt64 := ((val - repeatByte 0x01) &&& ~~~val) &&& repeatByte 0x80

/-- `create_zero_mask`. -/
def createZeroMask (bits : UInt64) : UInt64 := ((bits - 1) &&& ~~~bits) >>> 7

/-- `find_zero`. -/
def findZero (mask : UInt64) : UInt64 := UInt64.ofNat (fls64 mask >>> 3)

/-- `aligned_byte_mask`. -/
def alignedByteMask (n : UInt64) : UInt64 := (1 <<< (8 * n)) - 1

section ZeroByte

variable {word : UInt64} {nonzero rest : List UInt8}

theorem hasZero_eq_borrowed (val : UInt64) : hasZero val = borrowed val := rfl

variable (made : word.toNat = littleEndian (nonzero ++ 0 :: rest))
  (eight : nonzero.length + (rest.length + 1) = 8) (noZero : ∀ byte ∈ nonzero, byte ≠ 0)

include made eight noZero

theorem hasZero_ne_zero :
    hasZero word ≠ 0 := by
  intro none
  have set := wordBit_borrowed_zero noZero made eight
  rw [← hasZero_eq_borrowed, none, Bitmap.wordBit_zero] at set
  cases set

/-- The number of the first zero byte is found. -/
theorem findZero_hasZero :
    findZero (createZeroMask (hasZero word)) = UInt64.ofNat nonzero.length := by
  have below := toNat_below_borrowed noZero made eight
  have ones : (hasZero word - 1) &&& ~~~hasZero word =
      ofNat (2 ^ (8 * nonzero.length + 7) - 1) := by
    rw [hasZero_eq_borrowed, ← below, UInt64.ofNat_toNat]
  have each : ∀ count < 8, findZero (ofNat (2 ^ (8 * count + 7) - 1) >>> 7) = ofNat count := by
    decide
  rw [createZeroMask, ones, each _ (by omega)]

end ZeroByte

/-! ### The length of a string -/

/-- `access_ok`, for an address limit. -/
def accessOk (seg addr size : UInt64) : Bool := size ≤ seg && addr ≤ seg - size

/-- The loop of `do_strnlen_user` from an aligned address on. -/
def strnlenUserLoop (memory : Bytes.Memory) (src align count : UInt64) :
    Nat → UInt64 → UInt64 → UInt64 → Kernel UInt64
  | 0, _, _, _ => .error .endless
  | turns + 1, c, res, max =>
    let data := hasZero c
    if data ≠ 0 then .ok (res + findZero (createZeroMask data) + 1 - align)
    else
      let res := res + 8
      if max ≤ 8 then .ok (if count ≤ res - align then count + 1 else 0)
      else strnlenUserLoop memory src align count turns (loadWord memory (src + res)) res (max - 8)

/-- `do_strnlen_user`. -/
def doStrnlenUser (memory : Bytes.Memory) (src count max : UInt64) : Kernel UInt64 :=
  let align := 7 &&& src
  let src := src - align
  let c := loadWord memory src ||| alignedByteMask align
  strnlenUserLoop memory src align count maxTurns c 0 (max + align)

/-- `strnlen_user`, for an address limit. -/
def strnlenUser (seg : UInt64) (memory : Bytes.Memory) (str count : UInt64) : Kernel UInt64 :=
  if count.toInt64 ≤ 0 then .ok 0
  else if str < seg then
    let max := cmin (seg - str) count
    if accessOk seg str max then doStrnlenUser memory str count max else .ok 0
  else .ok 0

section Length

variable {memory : Bytes.Memory} {src align count : UInt64} {byteAt : Nat → UInt8} {last : Nat}

/-- The bytes of a word, split at one of them. -/
theorem range_split (byteAt : Nat → UInt8) {first : Nat} (inside : first < 8) :
    (List.range 8).map byteAt = (List.range first).map byteAt ++
      byteAt first :: (List.range (7 - first)).map (fun index => byteAt (first + 1 + index)) := by
  rw [show 8 = first + ((7 - first) + 1) by omega, range_add, map_append, map_map,
    range_succ_eq_map, map_cons, map_map]
  congr 3
  funext index
  show byteAt (first + (index + 1)) = byteAt (first + 1 + index)
  rw [add_right_comm, add_assoc]

section

variable (zero : byteAt last = 0) (before : ∀ index < last, byteAt index ≠ 0) {turn : Nat}
    {c : UInt64}
  (made : c.toNat = littleEndian ((List.range 8).map fun index => byteAt (8 * turn + index)))

include before made

/-- The word before the one with the first zero byte. -/
theorem hasZero_word (early : turn < last / 8) : hasZero c = 0 := by
  refine borrowed_eq_zero (fun byte member => ?_) made (by rw [length_map, length_range])
  obtain ⟨index, low, rfl⟩ := mem_map.mp member
  have less := mem_range.mp low
  exact before _ (by omega)

include zero

/-- The word with the first zero byte. -/
theorem findZero_word (here : turn = last / 8) : hasZero c ≠ 0 ∧
    ofNat (8 * turn) + findZero (createZeroMask (hasZero c)) = ofNat last := by
  have inside : last % 8 < 8 := mod_lt _ (by decide)
  have place : 8 * turn + last % 8 = last := by omega
  rw [range_split (fun index => byteAt (8 * turn + index)) inside, place, zero] at made
  have eight : ((range (last % 8)).map fun index => byteAt (8 * turn + index)).length +
      (((range (7 - last % 8)).map fun index => byteAt (8 * turn + (last % 8 + 1 + index))).length
        + 1) = 8 := by
    rw [length_map, length_map, length_range, length_range]
    omega
  have noZero : ∀ byte ∈ (range (last % 8)).map fun index => byteAt (8 * turn + index),
      byte ≠ 0 := by
    intro byte member
    obtain ⟨index, low, rfl⟩ := mem_map.mp member
    have less := mem_range.mp low
    exact before _ (by omega)
  refine ⟨hasZero_ne_zero made eight noZero, ?_⟩
  rw [findZero_hasZero made eight noZero, length_map, length_range, ← ofNat_add, place]

end

/-- The loop finds the first zero byte, unless the limit comes before it. What it reads are the
bytes of the words from the aligned address on, except for the low bytes of the first word. -/
theorem strnlenUserLoop_spec (zero : byteAt last = 0) (before : ∀ index < last, byteAt index ≠ 0)
    (reads : ∀ turn, 0 < turn → (loadWord memory (src + UInt64.ofNat (8 * turn))).toNat =
      littleEndian ((List.range 8).map fun index => byteAt (8 * turn + index)))
    {left turn turns : Nat} (spent : turn + left = last / 8) (enough : left < turns)
    {c max : UInt64}
    (made : c.toNat = littleEndian ((List.range 8).map fun index => byteAt (8 * turn + index)))
    (small : last < 2 ^ 64) (few : align.toNat ≤ 8)
    (room : last < 8 * turn + max.toNat ∨ 8 * turn + max.toNat = count.toNat + align.toNat) :
    strnlenUserLoop memory src align count turns c (UInt64.ofNat (8 * turn)) max =
        .ok (UInt64.ofNat (last + 1) - align) ∨
      count.toNat + align.toNat ≤ last ∧
        strnlenUserLoop memory src align count turns c (UInt64.ofNat (8 * turn)) max =
          .ok (count + 1) := by
  induction left generalizing turn turns c max with
  | zero =>
    obtain ⟨turns, rfl⟩ := exists_eq_succ_of_ne_zero (ne_of_gt enough)
    obtain ⟨some, found⟩ := findZero_word zero before made spent
    left
    rw [strnlenUserLoop]
    rw [if_pos some, found, ofNat_add]
    rfl
  | succ left ih =>
    obtain ⟨turns, rfl⟩ := exists_eq_succ_of_ne_zero (ne_of_gt (zero_lt_of_lt enough))
    have none := hasZero_word before made (by omega)
    have next : ofNat (8 * turn) + 8 = ofNat (8 * (turn + 1)) := by
      rw [mul_succ, ofNat_add]
      rfl
    have eight : (8 : UInt64).toNat = 8 := rfl
    rw [strnlenUserLoop]
    rw [if_neg (not_not.mpr none), next]
    by_cases stop : max ≤ 8
    · have limit := le_iff_toNat_le.mp stop
      have value :=
        toNat_ofNat_of_lt' (show 8 * (turn + 1) < UInt64.size by rw [UInt64.size]; omega)
      have past : count ≤ ofNat (8 * (turn + 1)) - align := by
        rw [le_iff_toNat_le, toNat_sub_of_toNat_le (by omega)]
        omega
      rw [if_pos stop, if_pos past]
      exact .inr ⟨by omega, rfl⟩
    · have rest : (max - 8).toNat = max.toNat - 8 :=
        UInt64.toNat_sub_of_le _ _ (UInt64.le_of_lt (UInt64.not_le.mp stop))
      have more := lt_iff_toNat_lt.mp (UInt64.not_le.mp stop)
      rw [if_neg stop]
      exact ih (by omega) (by omega) (reads (turn + 1) (succ_pos _)) (by omega)

/-- The bytes that `do_strnlen_user` looks at, from the aligned address on. -/
def maskedBytes (memory : Bytes.Memory) (src : UInt64) (align index : Nat) : UInt8 :=
  if index < align then 255 else memory (src + UInt64.ofNat index)

theorem map_maskedBytes {align : Nat} (few : align ≤ 8) :
    (List.range 8).map (maskedBytes memory src align) =
      List.replicate align 255 ++ (slice memory 8 src).drop align := by
  refine ext_getElem? fun index => ?_
  rw [slice_eq_map]
  grind [maskedBytes]

/-- What `strnlen_user` and `strncpy_from_user` look at is below the limit. -/
theorem accessOk_window {seg str : UInt64} (count : UInt64) (inside : str < seg) :
    (cmin (seg - str) count).toNat = min (seg.toNat - str.toNat) count.toNat ∧
      accessOk seg str (cmin (seg - str) count) = true := by
  have less := lt_iff_toNat_lt.mp inside
  have max := toNat_cmin (seg - str) count
  rw [toNat_sub_of_toNat_le less.le] at max
  refine ⟨max, ?_⟩
  rw [accessOk, Bool.and_eq_true, decide_eq_true_iff, decide_eq_true_iff, le_iff_toNat_le,
    le_iff_toNat_le, toNat_sub_of_toNat_le (by omega)]
  omega

section

variable {seg str : UInt64} {bytes : List UInt8} (spells : Spells memory str (bytes ++ [0]))
  (nonzero : ∀ byte ∈ bytes, byte ≠ 0) (positive : 0 < count.toInt64)
  (below : str.toNat + bytes.length < seg.toNat)

include spells nonzero

/-- The first zero byte is the one at the end of the string. -/
theorem first_zero : memory (str + ofNat bytes.length) = 0 ∧
    ∀ index < bytes.length, memory (str + ofNat index) ≠ 0 := by
  constructor
  · have last := spells.getElem? (show bytes.length < (bytes ++ [0]).length by simp)
    rw [getElem?_concat_length] at last
    exact (Option.some.inj last).symm
  · intro index inside
    have read := spells.getElem? (show index < (bytes ++ [0]).length by
      rw [length_append]
      omega)
    rw [getElem?_append_left inside] at read
    exact nonzero _ (mem_of_getElem? read)

include positive below

/-- `strnlen_user` returns the length of a string with the byte at its end, or one more than the
count if the string is too long for it. -/
theorem strnlenUser_eq_or :
    strnlenUser seg memory str count = .ok (UInt64.ofNat (bytes.length + 1)) ∨
      count.toNat ≤ bytes.length ∧ strnlenUser seg memory str count = .ok (count + 1) := by
  obtain ⟨zero, before⟩ := first_zero spells nonzero
  have segSmall := seg.toNat_lt
  have inside : str < seg := lt_iff_toNat_lt.mpr (by omega)
  obtain ⟨max, access⟩ := accessOk_window count inside
  have align : (7 &&& str).toNat = str.toNat % 8 := by
    rw [UInt64.and_comm]
    exact toNat_and_mask str (show (7 : UInt64).toNat = 2 ^ 3 - 1 from rfl)
  have alignWord : 7 &&& str = ofNat (str.toNat % 8) := by
    rw [← align, UInt64.ofNat_toNat]
  have mask : (alignedByteMask (7 &&& str)).toNat = 2 ^ (8 * (str.toNat % 8)) - 1 := by
    have each : ∀ low < 8, (alignedByteMask (ofNat low)).toNat = 2 ^ (8 * low) - 1 := by decide
    rw [alignWord, each _ (mod_lt _ (by decide))]
  rw [strnlenUser, if_neg (Int64.not_le.mpr positive), if_pos inside]
  rw [if_pos access]
  have byteAt : ∀ index, str.toNat % 8 ≤ index →
      maskedBytes memory (str - (7 &&& str)) (str.toNat % 8)
      index = memory (str + ofNat (index - str.toNat % 8)) := by
    intro index high
    have back : ofNat index = ofNat (index - str.toNat % 8) + (7 &&& str) := by
      rw [alignWord, ← ofNat_add, Nat.sub_add_cancel high]
    rw [maskedBytes]
    grind
  have spec := @strnlenUserLoop_spec memory (str - (7 &&& str)) (7 &&& str) count
    (maskedBytes memory (str - (7 &&& str)) (str.toNat % 8)) (str.toNat % 8 + bytes.length) ?_ ?_ ?_
    ((str.toNat % 8 + bytes.length) / 8) 0 maxTurns (zero_add _) ?_
    (loadWord memory (str - (7 &&& str)) ||| alignedByteMask (7 &&& str))
    (cmin (seg - str) count + (7 &&& str)) ?_ ?_ ?_ ?_
  · rcases spec with found | ⟨long, stopped⟩
    · have back : ofNat (str.toNat % 8 + bytes.length + 1) =
          ofNat (bytes.length + 1) + (7 &&& str) := by
        rw [alignWord, ← ofNat_add, add_assoc, add_comm]
      rw [back, UInt64.add_sub_cancel] at found
      exact .inl found
    · exact .inr ⟨by omega, stopped⟩
  · -- The string ends with a zero byte.
    rw [byteAt _ (le_add_right _ _), Nat.add_sub_cancel_left, zero]
  · intro index early
    by_cases low : index < str.toNat % 8
    · rw [maskedBytes, if_pos low]
      decide
    · rw [byteAt _ (not_lt.mp low)]
      exact before _ (by omega)
  · intro turn later
    rw [toNat_loadWord, slice_eq_map]
    congr 2
    funext index
    rw [maskedBytes, if_neg (by omega), ofNat_add, add_assoc]
  · rw [maxTurns]
    omega
  · rw [toNat_or_lowOnes toNat_loadWord mask, ← map_maskedBytes (by omega)]
    simp only [Nat.mul_zero, zero_add]
  · omega
  · omega
  · rw [toNat_add_of_lt (by omega)]
    omega

/-- The length of a string is measured: the result is above the count exactly if the string with its
last byte is longer. -/
theorem strnlenUser_length : ∃ value, strnlenUser seg memory str count = .ok value ∧
    if bytes.length + 1 ≤ count.toNat then value.toNat = bytes.length + 1
    else count.toNat < value.toNat := by
  have segSmall := seg.toNat_lt
  have length : (ofNat (bytes.length + 1)).toNat = bytes.length + 1 :=
    toNat_ofNat_of_lt' (show _ < 2 ^ 64 by omega)
  rcases strnlenUser_eq_or spells nonzero positive below with found | ⟨long, stopped⟩
  · refine ⟨_, found, ?_⟩
    rw [length]
    split <;> omega
  · refine ⟨_, stopped, ?_⟩
    rw [if_neg (by omega), toNat_add_of_lt (show _ + 1 < _ by omega)]
    exact lt_add_one _

end

/-- A byte with the top bit set and a byte equal to 1, measured with a count that is too small. -/
theorem strnlenUser_length_two : ∃ value,
    strnlenUser 0x1000 (fun addr => if addr = 3 then 0x80 else if addr = 4 then 1 else 0) 3 2 =
      .ok value ∧ 2 < value.toNat := by
  obtain ⟨value, ran, above⟩ := @strnlenUser_length
    (fun addr => if addr = 3 then 0x80 else if addr = 4 then 1 else 0) 2 0x1000 3 [0x80, 1]
    ⟨rfl, rfl, rfl, trivial⟩ (by simp) (by decide) (by decide)
  exact ⟨value, ran, above⟩

/-! ### The copy of a string -/

/-- The loop of `do_strncpy_from_user`: the memory of the user is read, the other one is written. -/
def doStrncpyFromUser (user : Bytes.Memory) (dst src : UInt64) (memory : Bytes.Memory)
    (res max : UInt64) : Kernel (UInt64 × Bytes.Memory) :=
  if 8 ≤ max then
    let c := loadWord user (src + res)
    let memory := storeWord memory (dst + res) c
    let data := hasZero c
    if data ≠ 0 then .ok (res + findZero (createZeroMask data), memory)
    else doStrncpyFromUser user dst src memory (res + 8) (max - 8)
  else .error (.panic "do_strncpy_from_user: !")
  termination_by max.toNat
  decreasing_by
    rw [UInt64.toNat_sub_of_le _ _ ‹8 ≤ max›]
    exact Nat.sub_lt (lt_of_lt_of_le (by decide) (le_iff_toNat_le.mp ‹8 ≤ max›)) (by decide)

/-- `strncpy_from_user` over memory, for an address limit. -/
def strncpyFromUserMemory (seg : UInt64) (user memory : Bytes.Memory) (dst src count : UInt64) :
    Kernel (UInt64 × Bytes.Memory) :=
  if count.toInt64 ≤ 0 then .ok (0, memory)
  else if src < seg then
    let max := cmin (seg - src) count
    if accessOk seg src max then doStrncpyFromUser user dst src memory 0 max else .ok (-14, memory)
  else .ok (-14, memory)

section Copy

variable {user : Bytes.Memory} {dst : UInt64}

theorem toNat_word (user : Bytes.Memory) (src : UInt64) (turn : Nat) :
    (loadWord user (src + ofNat (8 * turn))).toNat = littleEndian ((List.range 8).map fun index =>
      (fun place => user (src + ofNat place)) (8 * turn + index)) := by
  rw [toNat_loadWord, slice_eq_map]
  simp only [UInt64.add_assoc, ofNat_add]

/-- One more word is copied. -/
theorem storeWord_copied {turn : Nat} (small : 8 * turn + 8 ≤ 2 ^ 64)
    (copied : ∀ index < 8 * turn, memory (dst + ofNat index) = user (src + ofNat index))
    {index : Nat} (inside : index < 8 * turn + 8) :
    storeWord memory (dst + ofNat (8 * turn)) (loadWord user (src + ofNat (8 * turn)))
      (dst + ofNat index) = user (src + ofNat index) := by
  have offset : dst + ofNat index - (dst + ofNat (8 * turn)) = ofNat index - ofNat (8 * turn) := by
    grind
  have start : (ofNat (8 * turn)).toNat = 8 * turn := toNat_ofNat_of_lt' (show _ < 2 ^ 64 by omega)
  have place : (ofNat index).toNat = index := toNat_ofNat_of_lt' (show _ < 2 ^ 64 by omega)
  rw [storeWord_loadWord, offset]
  split_ifs with outside
  · grind
  · refine copied index ?_
    by_contra later
    rw [toNat_sub_of_toNat_le (by omega)] at outside
    omega

/-- The loop copies the string with its last byte, or the words before the limit end too early. -/
theorem doStrncpyFromUser_spec (zero : user (src + ofNat last) = 0)
    (before : ∀ index < last, user (src + ofNat index) ≠ 0) (small : last < 2 ^ 64)
    {left turn : Nat}
    (spent : turn + left = last / 8)
    (copied : ∀ index < 8 * turn, memory (dst + ofNat index) = user (src + ofNat index))
    (max : UInt64) :
    if last < 8 * turn + 8 * (max.toNat / 8) then
      ∃ after, doStrncpyFromUser user dst src memory (ofNat (8 * turn)) max =
        .ok (ofNat last, after) ∧
        ∀ index ≤ last, after (dst + ofNat index) = user (src + ofNat index)
    else doStrncpyFromUser user dst src memory (ofNat (8 * turn)) max =
      .error (.panic "do_strncpy_from_user: !") := by
  induction left generalizing turn memory max with
  | zero =>
    rw [doStrncpyFromUser]
    by_cases more : 8 ≤ max
    · have room : 8 ≤ max.toNat := le_iff_toNat_le.mp more
      obtain ⟨some, found⟩ := findZero_word zero before (toNat_word user src turn) spent
      rw [if_pos (by omega), if_pos more, if_pos some, found]
      exact ⟨_, rfl, fun index inside => storeWord_copied (by omega) copied (by omega)⟩
    · have short : max.toNat < 8 := lt_iff_toNat_lt.mp (UInt64.not_le.mp more)
      rw [if_neg (by omega), if_neg more]
  | succ left ih =>
    rw [doStrncpyFromUser]
    by_cases more : 8 ≤ max
    · have room : 8 ≤ max.toNat := le_iff_toNat_le.mp more
      have rest : (max - 8).toNat = max.toNat - 8 := UInt64.toNat_sub_of_le _ _ more
      have none := hasZero_word before (toNat_word user src turn) (by omega)
      have later := ih (show turn + 1 + left = last / 8 by omega)
        (fun index inside => storeWord_copied (by omega) copied inside) (max - 8)
      rw [if_pos more, if_neg (not_not.mpr none)]
      rw [rest, show 8 * (turn + 1) + 8 * ((max.toNat - 8) / 8) = 8 * turn + 8 *
        (max.toNat / 8) by omega, mul_succ, ofNat_add] at later
      exact later
    · have short : max.toNat < 8 := lt_iff_toNat_lt.mp (UInt64.not_le.mp more)
      rw [if_neg (by omega), if_neg more]

section

variable {seg : UInt64} {bytes : List UInt8} (spells : Spells user src (bytes ++ [0]))
  (nonzero : ∀ byte ∈ bytes, byte ≠ 0) (positive : 0 < count.toInt64)
  (below : src.toNat + bytes.length < seg.toNat) (memory : Bytes.Memory) (dst : UInt64)

include spells nonzero positive below

theorem strncpyFromUserMemory_spec :
    if bytes.length < 8 * (min (seg.toNat - src.toNat) count.toNat / 8) then
      ∃ after, strncpyFromUserMemory seg user memory dst src count =
        .ok (ofNat bytes.length, after) ∧
        ∀ index ≤ bytes.length, after (dst + ofNat index) = user (src + ofNat index)
    else strncpyFromUserMemory seg user memory dst src count =
      .error (.panic "do_strncpy_from_user: !") := by
  obtain ⟨zero, before⟩ := first_zero spells nonzero
  have inside : src < seg := lt_iff_toNat_lt.mpr (by omega)
  obtain ⟨max, access⟩ := accessOk_window count inside
  have small := seg.toNat_lt
  have ran : strncpyFromUserMemory seg user memory dst src count =
      doStrncpyFromUser user dst src memory 0 (cmin (seg - src) count) := by
    rw [strncpyFromUserMemory, if_neg (Int64.not_le.mpr positive), if_pos inside]
    exact if_pos access
  have copied : ∀ index < 8 * 0, memory (dst + ofNat index) = user (src + ofNat index) := nofun
  have spec :=
    doStrncpyFromUser_spec zero before (by omega) (zero_add _) copied (cmin (seg - src) count)
  rwa [max, Nat.mul_zero, zero_add, show ofNat 0 = 0 from rfl, ← ran] at spec

end

end Copy

end Length

end Xlinux
