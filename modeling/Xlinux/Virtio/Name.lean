/-
This file is about the names of virtio block devices. `virtblk_name_format` of
`virtio_blk/virtio_blk.c` writes the letters of an index from the end of the
buffer backwards and then moves them behind the first part of the name.
-/

import Xlinux.Kernel

namespace Xlinux

open Function List Nat

/-! ### The code -/

/-- `memcpy` of some characters, over the offsets of a buffer. -/
def memcpyTo (memory : Nat → UInt8) (at_ : Nat) (bytes : List UInt8) : Nat → UInt8 := fun i =>
  if at_ ≤ i then (bytes[i - at_]?).getD (memory i) else memory i

/-- `memmove`, over the offsets of a buffer. -/
def memmoveTo (memory : Nat → UInt8) (dest src count : Nat) : Nat → UInt8 := fun i =>
  if dest ≤ i ∧ i < dest + count then memory (src + (i - dest)) else memory i

/-- The loop of `virtblk_name_format`, with the room before `p` and the place of the first
letter. -/
def nameLoop (begin : Nat) : Nat → Int → (Nat → UInt8) → Option Nat × (Nat → UInt8)
  | 0, _, memory => (none, memory)
  | room + 1, index, memory =>
    let memory := update memory (begin + room) (UInt8.ofNat ('a'.toNat + (index % 26).toNat))
    let index := index / 26 - 1
    if index ≥ 0 then nameLoop begin room index memory else (some (begin + room), memory)

/-- `virtblk_name_format`. -/
def virtblkNameFormat (first : List UInt8) (index : Int) (buf : Nat → UInt8) (buflen : Nat) :
    Int × (Nat → UInt8) :=
  let buf := update buf (buflen - 1) 0
  match nameLoop first.length (buflen - 1 - first.length) index buf with
  | (none, buf) => (-einval, buf)
  | (some p, buf) => (0, memcpyTo (memmoveTo buf first.length p (buflen - p)) 0 first)

/-! ### Letters -/

/-- The numeral of an index: `a` to `z`, then `aa`, `ab` and so on. -/
def letters (index : Nat) : List UInt8 :=
  (if index < 26 then [] else letters (index / 26 - 1)) ++ [UInt8.ofNat ('a'.toNat + index % 26)]
termination_by index
decreasing_by omega

/-- The number of a numeral in base 26 with the digits 1 to 26. -/
def lettersValue (numeral : List UInt8) : Nat :=
  numeral.foldl (fun value letter => 26 * value + (letter.toNat - 'a'.toNat + 1)) 0

theorem toNat_letter (index : Nat) :
    (UInt8.ofNat ('a'.toNat + index % 26)).toNat = 'a'.toNat + index % 26 := by
  refine UInt8.toNat_ofNat_of_lt' ?_
  show 97 + index % 26 < 256
  omega

theorem lettersValue_letters (index : Nat) : lettersValue (letters index) = index + 1 := by
  induction index using Nat.strong_induction_on with
  | _ index ih =>
    rw [letters, lettersValue, foldl_append]
    simp only [foldl_cons, foldl_nil, toNat_letter, Nat.add_sub_cancel_left]
    split_ifs with small
    · rw [foldl_nil]; omega
    · have quotient := ih (index / 26 - 1) (by omega)
      rw [lettersValue] at quotient
      rw [quotient]
      omega

theorem mem_letters {index : Nat} {letter : UInt8} (member : letter ∈ letters index) :
    'a'.toNat ≤ letter.toNat ∧ letter.toNat ≤ 'z'.toNat := by
  induction index using Nat.strong_induction_on with
  | _ index ih =>
    rw [letters, mem_append, mem_singleton] at member
    rcases member with before | rfl
    · split_ifs at before with large
      · cases before
      · exact ih _ (by omega) before
    · rw [toNat_letter]
      exact ⟨Nat.le_add_right .., show 97 + index % 26 ≤ 122 by omega⟩

/-! ### The name -/

/-- The loop writes the letters of an index at the end of the room, if there is room for them. -/
theorem nameLoop_spec (begin room index : Nat) (memory : Nat → UInt8) :
    ∃ found after, nameLoop begin room index memory = (found, after) ∧
      (∀ i, i < begin ∨ begin + room ≤ i → after i = memory i) ∧
      if (letters index).length ≤ room then ∃ p, found = some p ∧
        p + (letters index).length = begin + room ∧
        (range' p (letters index).length).map after = letters index
      else found = none := by
  induction room generalizing index memory with
  | zero =>
    have some : ¬(letters index).length ≤ 0 := by
      rw [letters, length_append]
      exact Nat.not_le.mpr (succ_pos _)
    exact ⟨_, _, rfl, fun _ _ => rfl, by rw [if_neg some]⟩
  | succ room ih =>
    have more : (index : Int) / 26 - 1 ≥ 0 ↔ ¬index < 26 := by omega
    have letter : ((index : Int) % 26).toNat = index % 26 := by omega
    rw [nameLoop, letters, length_append, length_singleton, letter]
    by_cases small : index < 26
    · rw [if_pos small, if_neg (mt more.mp (not_not.mpr small))]
      refine ⟨_, _, rfl, fun i outside => update_of_ne (by omega) .., ?_⟩
      exact ⟨begin + room, rfl, rfl, congrArg ([·]) (update_self ..)⟩
    · obtain ⟨found, after, ran, frame, ends⟩ := ih (index / 26 - 1)
        (update memory (begin + room) (UInt8.ofNat ('a'.toNat + index % 26)))
      have next : (index : Int) / 26 - 1 = (index / 26 - 1 : Nat) := by omega
      rw [if_neg small, if_pos (more.mpr small), next]
      refine ⟨found, after, ran, fun i outside => ?_, ?_⟩
      · rw [frame i (by omega), update_of_ne (by omega)]
      · split_ifs at ends with fits
        · obtain ⟨p, rfl, place, spelled⟩ := ends
          have last : after (p + (letters (index / 26 - 1)).length) =
              UInt8.ofNat ('a'.toNat + index % 26) := by
            rw [place, frame _ (.inr le_rfl), update_self]
          rw [if_pos (succ_le_succ fits)]
          refine ⟨p, rfl, by omega, ?_⟩
          rw [range'_1_concat, map_append, spelled, map_singleton, last]
        · rw [if_neg (by omega)]
          exact ends

/-- The name is the first part and the letters of the index, if there is room for it, and nothing is
written behind the buffer. Different indices have different names. -/
theorem virtblkNameFormat_letters (first : List UInt8) (index : Nat) (buf : Nat → UInt8)
    {buflen : Nat} (longer : first.length < buflen) :
    (∃ after, virtblkNameFormat first index buf buflen =
        (if first.length + (letters index).length < buflen then 0 else -einval, after) ∧
      (first.length + (letters index).length < buflen →
        (range (first.length + (letters index).length + 1)).map after =
        first ++ letters index ++ [0]) ∧
      ∀ i ≥ buflen, after i = buf i) ∧
    (∀ letter ∈ letters index, 'a'.toNat ≤ letter.toNat ∧ letter.toNat ≤ 'z'.toNat) ∧
    lettersValue (letters index) = index + 1 ∧
    ∀ other, first ++ letters other ++ [0] = first ++ letters index ++ [0] → other = index := by
  refine ⟨?_, fun letter => mem_letters, lettersValue_letters index, fun other same => ?_⟩
  · obtain ⟨found, after, ran, frame, ends⟩ :=
      nameLoop_spec first.length (buflen - 1 - first.length) index (update buf (buflen - 1) 0)
    have whole : first.length + (buflen - 1 - first.length) = buflen - 1 := by omega
    rw [whole] at frame ends
    have behind (i : Nat) (beyond : i ≥ buflen) : after i = buf i := by
      rw [frame i (.inr (by omega)), update_of_ne (by omega)]
    rw [virtblkNameFormat, ran]
    split_ifs at ends with fits
    · obtain ⟨p, rfl, place, spelled⟩ := ends
      have moved (i : Nat) (late : first.length ≤ i) (moved : Nat → UInt8) :
          memcpyTo moved 0 first i = moved i := by
        rw [memcpyTo, if_pos (zero_le i), getElem?_eq_none (by omega), Option.getD_none]
      rw [if_pos (by omega)]
      refine ⟨_, rfl, fun _ => ?_, fun i beyond => ?_⟩
      · rw [add_assoc, range_add, map_append, map_map, append_assoc]
        congr 1
        · refine ext_getElem (by simp) fun i _ inside => ?_
          rw [getElem_map, getElem_range, memcpyTo, if_pos (zero_le i), Nat.sub_zero,
            getElem?_eq_getElem inside, Option.getD_some]
        · have last : after (p + (letters index).length) = 0 := by
            rw [place, frame _ (.inr le_rfl), update_self]
          refine Eq.trans ?_ (congrArg₂ (· ++ [·]) spelled last)
          rw [← map_singleton, ← map_append, ← range'_1_concat, range'_eq_map_range, map_map]
          refine map_congr_left fun k inside => ?_
          have less := mem_range.mp inside
          rw [comp_apply, moved _ (Nat.le_add_right ..), memmoveTo, if_pos (by omega),
            Nat.add_sub_cancel_left]
          rfl
      · rw [moved i (by omega), memmoveTo, if_neg (by omega), behind i beyond]
    · rw [ends, if_neg (by omega)]
      exact ⟨after, rfl, fun short => absurd short (by omega), behind⟩
  · have value := lettersValue_letters other
    rw [append_cancel_left (append_cancel_right same), lettersValue_letters] at value
    exact (succ_injective value).symm

/-- The index 26 behind `vd` needs two letters. -/
theorem virtblkNameFormat_letters_two :
    ∃ after, virtblkNameFormat [118, 100] 26 (fun _ => 1) 32 = (0, after) ∧
      (range 5).map after = [118, 100, 97, 97, 0] := by
  obtain ⟨⟨after, ran, spelled, _⟩, _⟩ :=
    virtblkNameFormat_letters [118, 100] 26 (fun _ => 1) (show _ < 32 by decide)
  have numeral : letters 26 = [97, 97] := by
    rw [letters, letters]
    rfl
  rw [numeral] at ran spelled
  exact ⟨after, ran, spelled (by decide)⟩

end Xlinux
