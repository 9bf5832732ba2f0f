/-
This file models `simple_strtoull` (`lib/vsprintf.c`) and reads back what
`vsnprintf` prints. The check for an overflow is made for base 16; in a smaller
base it stops the kernel at numbers that fit.
-/

import Xlinux.Lib.ByteWord
import Xlinux.Printf.Output

namespace Xlinux

open Bytes (Memory slice)
open List Kernel

/-! ### The parser -/

/-- `_tolower`. -/
def toLower (c : UInt8) : UInt8 := c ||| 0x20

/-- The value of a hexadecimal digit. -/
def digitValue (c : UInt8) : Option Nat :=
  if '0'.toUInt8 ≤ c ∧ c ≤ '9'.toUInt8 then some (c - '0'.toUInt8).toNat
  else if 'a'.toUInt8 ≤ toLower c ∧
    toLower c ≤ 'f'.toUInt8 then some ((toLower c - 'a'.toUInt8).toNat + 10)
  else none

/-- The loop of `_parse_integer`. -/
def parseInteger (base : Nat) : List UInt8 → Nat → UInt64 → Kernel (Nat × UInt64)
  | [], _, _ => .error .outOfBounds
  | c :: s, rv, res =>
    match digitValue c with
    | none => .ok (rv, res)
    | some val =>
      if val ≥ base then .ok (rv, res)
      else if res &&& (~~~(0 : UInt64) <<< 60) ≠ 0 then .error (.panic "overflow!")
      else parseInteger base s (rv + 1) (res * UInt64.ofNat base + UInt64.ofNat val)

/-- `_parse_integer_fixup_radix`: the base, and the characters behind those that name it. -/
def parseIntegerFixupRadix (s : List UInt8) (base : Nat) : Nat × List UInt8 :=
  let marked := s.getD 0 0 = '0'.toUInt8 ∧ toLower (s.getD 1 0) = 'x'.toUInt8
  let base :=
    if base ≠ 0 then base
    else if s.getD 0 0 = '0'.toUInt8 then
      if marked ∧ (digitValue (s.getD 2 0)).isSome then 16 else 8
    else 10
  (base, if base = 16 ∧ marked then s.drop 2 else s)

/-- `simple_strtoull`: the number, and what is left of the string. -/
def simpleStrtoull (cp : List UInt8) (base : Nat) : Kernel (UInt64 × List UInt8) := do
  let (base, cp) := parseIntegerFixupRadix cp base
  let (rv, result) ← parseInteger base cp 0 0
  return (result, cp.drop rv)

/-! ### Reading back -/

theorem digitValue_hexAscUpper :
    ∀ digit < 16, digitValue (hexAscUpper digit) = some digit := by decide

theorem overflow_iff (res : UInt64) : res &&& (~~~(0 : UInt64) <<< 60) ≠ 0 ↔
    ¬res.toNat < 2 ^ 60 := by
  have rounded := toNat_roundDown (show (0x1000000000000000 : UInt64).toNat = 2 ^ 60 from rfl) res
  have same : roundDown res 0x1000000000000000 = res &&& (~~~(0 : UInt64) <<< 60) := rfl
  rw [ne_eq, ← UInt64.toNat_inj, ← same, UInt64.toNat_zero]
  omega

variable {base : Nat} (small : base ≤ 16)

include small

theorem parseInteger_digit {digit : Nat} (less : digit < base) (rest : List UInt8)
    (rv : Nat) {n : Nat}
    (fits : n < 2 ^ 64) : parseInteger base (hexAscUpper digit :: rest) rv (UInt64.ofNat n) =
      if n < 2 ^ 60 then parseInteger base rest (rv + 1) (UInt64.ofNat (n * base + digit))
      else .error (.panic "overflow!") := by
  rw [parseInteger, digitValue_hexAscUpper digit (less.trans_le small)]
  dsimp only
  rw [if_neg (not_le.mpr less)]
  simp only [overflow_iff, UInt64.toNat_ofNat_of_lt' fits, ite_not]
  rw [UInt64.ofNat_add, UInt64.ofNat_mul]

variable (large : 1 < base)

include large

/-- The digits of a number are read, unless the check comes before the last one. -/
theorem parseInteger_textOf (rest : List UInt8) {n : Nat} (fits : n < 2 ^ 64) :
    parseInteger base (textOf base n ++ rest) 0 0 =
      if n / base < 2 ^ 60 then parseInteger base rest (textOf base n).length (UInt64.ofNat n)
      else .error (.panic "overflow!") := by
  induction n using Nat.strongRecOn generalizing rest with
  | _ n ih =>
    have last : n % base < base := Nat.mod_lt n (Nat.zero_lt_of_lt large)
    have value : n / base * base + n % base = n := Nat.div_add_mod' n base
    rw [textOf_eq large]
    split
    case isTrue single =>
      rw [single, zero_mul, zero_add] at value
      rw [single]
      have step := parseInteger_digit small last rest 0 (show 0 < 2 ^ 64 by decide)
      rw [if_pos (by decide), zero_mul, zero_add, zero_add, value] at step
      rw [value]
      exact step
    case isFalse more =>
      have less : n / base < n :=
        Nat.div_lt_self (pos_of_ne_zero fun zero => more (by simp [zero])) large
      rw [append_assoc, ih _ less _ (less.trans fits), singleton_append,
        parseInteger_digit small last rest _ (less.trans fits), value, length_append]
      have shorter : n / base / base ≤ n / base := Nat.div_le_self _ _
      split_ifs <;> first | rfl | omega

theorem textOf_ne_x {n : Nat} {c : UInt8} (member : c ∈ textOf base n) :
    toLower c ≠ 'x'.toUInt8 := by
  have each : ∀ digit < 16, toLower (hexAscUpper digit) ≠ 'x'.toUInt8 := by decide
  unfold textOf at member
  split at member
  · rw [mem_singleton.mp member]
    decide
  · obtain ⟨digit, among, rfl⟩ := mem_map.mp (mem_reverse.mp member)
    exact each digit ((Nat.digits_lt_base large among).trans_le small)

theorem simpleStrtoull_textOf (rest : List UInt8) {n : Nat} (fits : n < 2 ^ 64) :
    simpleStrtoull (textOf base n ++ 0 :: rest) base =
      if n / base < 2 ^ 60 then .ok (UInt64.ofNat n, 0 :: rest) else .error
        (.panic "overflow!") := by
  have second : toLower ((textOf base n ++ 0 :: rest).getD 1 0) ≠ 'x'.toUInt8 := by
    cases text : textOf base n with
    | nil => exact absurd (text.symm.trans (textOf_eq large n)) (by split <;> simp)
    | cons c more =>
      cases more with
      | nil => exact (by decide : toLower 0 ≠ 'x'.toUInt8)
      | cons d more => exact textOf_ne_x small large (text ▸ mem_cons_of_mem c mem_cons_self)
  have plain : parseIntegerFixupRadix (textOf base n ++ 0 :: rest) base =
      (base, textOf base n ++ 0 :: rest) := by
    unfold parseIntegerFixupRadix
    simp only [if_pos (ne_zero_of_lt large), second, and_false, if_false]
  rw [simpleStrtoull, plain]
  dsimp only
  rw [parseInteger_textOf small large _ fits]
  split_ifs
  · show Except.ok (_, drop _ (textOf base n ++ 0 :: rest)) = _
    rw [drop_left]
  · rfl

omit large small

/-- A number that was printed in some base is read back, unless all but its last digit do not fit in
sixty bits. -/
theorem simpleStrtoull_vsnprintf_iff {conversion : Conversion}
    (among : (conversion, base) ∈ [(.u, 10), (.o, 8), (.x, 16), (.X, 16)]) (v : UInt64)
    (strings : UInt64 → List UInt8) (memory : Memory) {buf size : UInt64}
    (room : BufferRoom buf size (textOf base v.toNat).length)
    (enough : (textOf base v.toNat).length < size.toNat) : ∃ length after rest,
      vsnprintf strings memory buf size (formatOf [.conv true conversion]) (fun _ => v) =
          .ok (length, after) ∧
      slice after size.toNat buf = textOf base v.toNat ++ 0 :: rest ∧
      (simpleStrtoull (slice after size.toNat buf) base = .ok (v, 0 :: rest) ↔
        v.toNat / base < 2 ^ 60) := by
  have text : output strings [.conv true conversion] (fun _ => v) = textOf base v.toNat ∧ 1 < base ∧
      base ≤ 16 := by
    simp only [mem_cons, not_mem_nil, or_false] at among
    rcases among with ⟨rfl, rfl⟩ | ⟨rfl, rfl⟩ | ⟨rfl, rfl⟩ | ⟨rfl, rfl⟩
    all_goals exact ⟨append_nil _, by decide, by decide⟩
  obtain ⟨after, ran, truncated⟩ := @vsnprintf_ok strings [.conv true conversion] (fun _ => v)
    (show 0 < 2 ^ 31 by decide) _ _ (text.1 ▸ room) memory
  rw [text.1] at truncated
  obtain ⟨more, size_eq⟩ := Nat.exists_eq_add_of_lt enough
  have inside := truncated.inside (UInt64.lt_iff_toNat_lt.mpr (Nat.zero_lt_of_lt enough))
  rw [take_of_length_le (by omega)] at inside
  obtain ⟨rest, spelled⟩ := inside.slice_eq more
  rw [length_append, length_singleton, add_right_comm, ← size_eq, append_assoc] at spelled
  refine ⟨_, after, rest, ran, spelled, ?_⟩
  rw [spelled, singleton_append, simpleStrtoull_textOf text.2.2 text.2.1 rest v.toNat_lt,
    UInt64.ofNat_toNat]
  split_ifs with below
  · exact iff_of_true rfl below
  · exact iff_of_false nofun below

/-- The largest number is read back in base 16. -/
theorem simpleStrtoull_vsnprintf_hex : ∃ length after rest,
    vsnprintf (fun _ => []) (fun _ => 7) 0x1000 32 (formatOf [.conv true .x])
        (fun _ => 0xffffffffffffffff) = .ok (length, after) ∧
      simpleStrtoull (slice after 32 0x1000) 16 = .ok (0xffffffffffffffff, 0 :: rest) := by
  have digits : (textOf 16 (0xffffffffffffffff : UInt64).toNat).length = 16 := by decide +kernel
  obtain ⟨length, after, rest, ran, _, read⟩ := @simpleStrtoull_vsnprintf_iff 16 .x (by decide)
    0xffffffffffffffff (fun _ => []) (fun _ => 7) 0x1000 32
      (digits ▸ ⟨by decide, by decide, by decide⟩)
    (digits ▸ by decide)
  exact ⟨length, after, rest, ran, read.mpr (by decide)⟩

/-- The largest number is printed in base ten and cannot be read back. -/
theorem simpleStrtoull_vsnprintf_max :
    (vsnprintf (fun _ => []) (fun _ => 7) 0x1000 32 (formatOf [.conv true .u])
        fun _ => 0xffffffffffffffff).bind
        (fun printed => simpleStrtoull (slice printed.2 32 0x1000) 10) =
      .error (.panic "overflow!") := by
  rfl

end Xlinux
