/-
This file asks whether what a conversion prints depends on the conversions before
it. `format_decode` never clears the flag for the sign, so it does: after a signed
conversion, an unsigned one takes its argument for signed. Formats in which this
does not happen print every conversion on its own, and there are no others.
-/

import Xlinux.Lib.ByteWord
import Xlinux.Printf.Output

namespace Xlinux

open Bytes (Spells slice spells_append)

variable {strings : UInt64 → List UInt8} {sign long : Bool} {conversion : Conversion}
  {pieces : List Piece}

/-! ### Conversions on their own -/

/-- What the conversions of a format print each on its own, with the text between them. -/
def ownOutput (strings : UInt64 → List UInt8) : List Piece → VaList → List UInt8
  | [], _ => []
  | .text c :: rest, args => c.1 :: ownOutput strings rest args
  | .conv long conversion :: rest, args =>
    rendered strings conversion.signed long conversion (args 0) ++ ownOutput strings rest args.rest

/-- The conversions that print something else when the flag for the sign is set before them. -/
def Conversion.readsSign (long : Bool) : Conversion → Bool
  | .u => true
  | .o | .x | .X => !long
  | _ => false

/-- No conversion that reads the flag for the sign comes after one that sets it. -/
def unaffected : Bool → List Piece → Bool
  | _, [] => true
  | sign, .text _ :: rest => unaffected sign rest
  | sign, .conv long conversion :: rest =>
    !(sign && conversion.readsSign long) && unaffected (sign || conversion.signed) rest

theorem rendered_of_not_readsSign (free : conversion.readsSign long = false) (arg : UInt64) :
    rendered strings (sign || conversion.signed) long conversion arg =
      rendered strings conversion.signed long conversion arg := by
  cases conversion with
  | u => cases free
  | d | i => rw [Conversion.signed, Bool.or_true]
  | o | x | X =>
    cases long with
    | false => cases free
    | true => rfl
  | _ => rfl

theorem rendered_of_unaffected (free : (sign && conversion.readsSign long) = false) (arg : UInt64) :
    rendered strings (sign || conversion.signed) long conversion arg =
      rendered strings conversion.signed long conversion arg := by
  cases sign with
  | false => rw [Bool.false_or]
  | true => exact rendered_of_not_readsSign free arg

theorem outputFrom_of_unaffected (free : unaffected sign pieces = true) (args : VaList) :
    outputFrom strings sign pieces args = ownOutput strings pieces args := by
  induction pieces generalizing sign args with
  | nil => rfl
  | cons piece rest ih =>
    cases piece with
    | text c => exact congrArg (c.1 :: ·) (ih free args)
    | conv long conversion =>
      rw [unaffected, Bool.and_eq_true, Bool.not_eq_true'] at free
      rw [outputFrom, ownOutput, rendered_of_unaffected free.1, ih free.2]

/-! ### Arguments that tell the difference -/

/-- One argument before others. -/
def VaList.cons (arg : UInt64) (args : VaList) : VaList
  | 0 => arg
  | n + 1 => args n

/-- An argument that is negative when it is taken for signed. -/
def highArg (long : Bool) : UInt64 := if long then 0x8000000000000000 else 0x80000000

/-- A high argument for the first conversion that is affected by those before it. -/
def tellingArgs : Bool → List Piece → VaList
  | _, [] => fun _ => 0
  | sign, .text _ :: rest => tellingArgs sign rest
  | sign, .conv long conversion :: rest =>
    if sign && conversion.readsSign long then VaList.cons (highArg long) fun _ => 0
    else VaList.cons 0 (tellingArgs (sign || conversion.signed) rest)

theorem rendered_zero : rendered strings (sign || conversion.signed) long conversion 0 =
      rendered strings conversion.signed long conversion 0 ∧
    (rendered strings conversion.signed long conversion 0).length ≤ 6 := by
  cases conversion <;> cases sign <;> cases long <;> exact ⟨rfl, Nat.le_of_ble_eq_true rfl⟩

theorem outputFrom_zero : outputFrom strings sign pieces (fun _ => 0) =
      ownOutput strings pieces (fun _ => 0) ∧
    (ownOutput strings pieces fun _ => 0).length ≤ 24 * pieces.length := by
  induction pieces generalizing sign with
  | nil => exact ⟨rfl, le_rfl⟩
  | cons piece rest ih =>
    obtain ⟨same, short⟩ := @ih sign
    cases piece with
    | text c =>
      refine ⟨congrArg (c.1 :: ·) same, ?_⟩
      simp only [ownOutput, List.length_cons]
      omega
    | conv long conversion =>
      obtain ⟨first, few⟩ := @rendered_zero strings sign long conversion
      obtain ⟨next, _⟩ := @ih (sign || conversion.signed)
      refine ⟨congrArg₂ (· ++ ·) first next, ?_⟩
      have rest : (ownOutput strings rest (VaList.rest fun _ => 0)).length ≤
          24 * rest.length := short
      rw [ownOutput, List.length_append, List.length_cons]
      omega

/-- A high argument is printed longer when it is taken for signed. -/
theorem length_rendered_highArg (reads : conversion.readsSign long = true) :
    let longer := (rendered (fun _ => []) true long conversion (highArg long)).length
    (rendered (fun _ => []) conversion.signed long conversion (highArg long)).length < longer ∧
      longer ≤ 24 := by
  cases conversion <;> cases long <;> cases reads <;> exact ⟨by decide +kernel, by decide +kernel⟩

theorem length_outputFrom_tellingArgs (affected : unaffected sign pieces = false) :
    let longer := (outputFrom (fun _ => []) sign pieces (tellingArgs sign pieces)).length
    let own := (ownOutput (fun _ => []) pieces (tellingArgs sign pieces)).length
    own < longer ∧ longer ≤ own + 24 ∧ longer ≤ 24 * pieces.length := by
  induction pieces generalizing sign with
  | nil => cases affected
  | cons piece rest ih =>
    cases piece with
    | text c =>
      have behind := ih affected
      simp only [tellingArgs, outputFrom, ownOutput, List.length_cons] at behind ⊢
      omega
    | conv long conversion =>
      rw [tellingArgs]
      split_ifs with reads
      · rw [Bool.and_eq_true] at reads
        obtain ⟨more, short⟩ := length_rendered_highArg reads.2
        obtain ⟨same, few⟩ := @outputFrom_zero (fun _ => []) true rest
        have tail : (VaList.cons (highArg long) fun _ => 0).rest = fun _ => 0 := rfl
        have head : VaList.cons (highArg long) (fun _ => 0) 0 = highArg long := rfl
        simp only [outputFrom, ownOutput, List.length_append, List.length_cons, reads.1,
          Bool.true_or, tail, head, same]
        omega
      · rw [Bool.not_eq_true] at reads
        rw [unaffected, reads, Bool.not_false] at affected
        have behind := ih affected
        obtain ⟨-, few⟩ := @rendered_zero (fun _ => []) sign long conversion
        have tail : (VaList.cons 0 (tellingArgs (sign || conversion.signed) rest)).rest =
            tellingArgs (sign || conversion.signed) rest := rfl
        have head : VaList.cons 0 (tellingArgs (sign || conversion.signed) rest) 0 = 0 := rfl
        simp only [outputFrom, ownOutput, List.length_append, List.length_cons, tail, head,
          rendered_of_unaffected reads] at behind ⊢
        omega

/-! ### Formats that print their conversions independently -/

theorem mod_eq_of_toCInt_eq {a b : Nat}
    (same : toCInt (UInt64.ofNat a) = toCInt (UInt64.ofNat b)) : a % 2 ^ 32 = b % 2 ^ 32 := by
  have low : ∀ n : Nat, (UInt64.ofNat n).toNat % 2 ^ 32 = n % 2 ^ 32 := by
    intro n
    exact Nat.mod_mod_of_dvd n (pow_dvd_pow 2 (by decide))
  have first := Nat.mod_lt a (show 0 < 2 ^ 32 by decide)
  have second := Nat.mod_lt b (show 0 < 2 ^ 32 by decide)
  rw [toCInt_eq (low a), toCInt_eq (low b)] at same
  split at same <;> split at same <;> omega

/-- A format prints its conversions each on its own, whatever the arguments and wherever the buffer
is, if and only if no conversion in it that reads the flag for the sign comes after one that sets
it. -/
theorem vsnprintf_independent_iff (short : textCount pieces < 2 ^ 31)
    (few : pieces.length < 2 ^ 56) : (∀ strings memory buf size args,
      BufferRoom buf size (ownOutput strings pieces args).length →
      (ownOutput strings pieces args).length < size.toNat →
      ∃ after, vsnprintf strings memory buf size (formatOf pieces) args =
          .ok (toCInt (UInt64.ofNat (ownOutput strings pieces args).length), after) ∧
        Spells after buf (ownOutput strings pieces args)) ↔
      unaffected false pieces = true := by
  constructor
  · intro independent
    by_contra affected
    rw [Bool.not_eq_true] at affected
    obtain ⟨more, less, bounded⟩ := length_outputFrom_tellingArgs affected
    rw [← output] at more less bounded
    have size : (UInt64.ofNat (2 ^ 62)).toNat = 2 ^ 62 := by decide
    obtain ⟨after, ran, -⟩ := independent (fun _ => []) (fun _ => 0) 0 (UInt64.ofNat (2 ^ 62))
      (tellingArgs false pieces) ⟨by decide, by simp; omega, by decide⟩ (by omega)
    obtain ⟨_, printed, -⟩ := @vsnprintf_ok (fun _ => []) pieces (tellingArgs false pieces) short 0
      (UInt64.ofNat (2 ^ 62)) ⟨by decide, by simp; omega, by decide⟩ fun _ => 0
    rw [printed, Except.ok.injEq, Prod.mk.injEq] at ran
    have same := mod_eq_of_toCInt_eq ran.1
    omega
  · intro free strings memory buf size args room enough
    have own : output strings pieces args = ownOutput strings pieces args :=
      outputFrom_of_unaffected free args
    obtain ⟨after, ran, truncated⟩ := vsnprintf_ok short (own ▸ room) memory
    rw [own] at ran truncated
    have inside := truncated.inside (UInt64.lt_iff_toNat_lt.mpr (Nat.zero_lt_of_lt enough))
    rw [List.take_of_length_le (by omega), spells_append] at inside
    exact ⟨after, ran, inside.1⟩

/-- The format `%d%u`. -/
def signedThenUnsigned : List Piece := [.conv false .d, .conv false .u]

/-- After a signed conversion the argument `0xffffffff` of an unsigned one is printed as `-1`. -/
theorem vsnprintf_unsigned_after_signed :
    ((vsnprintf (fun _ => []) (fun _ => 7) 0x1000 32 (formatOf signedThenUnsigned)
        (VaList.cons 0 fun _ => 0xffffffff)).map fun result =>
          (result.1, slice result.2 4 0x1000)) = .ok (3, asciiOf "0-1" ++ [0]) ∧
      ownOutput (fun _ => []) signedThenUnsigned (VaList.cons 0 fun _ => 0xffffffff) =
        asciiOf "04294967295" := by
  decide +kernel

/-- The format `%u %d`. -/
def unsignedThenSigned : List Piece := [.conv false .u, .text ⟨32, by decide⟩, .conv false .d]

theorem vsnprintf_independent_iff_unsignedThenSigned :
    ∃ after, vsnprintf (fun _ => []) (fun _ => 0) 0x1000 32 (formatOf unsignedThenSigned)
        (fun _ => 0xffffffff) = .ok (13, after) ∧
          Spells after 0x1000 (asciiOf "4294967295 -1") := by
  have own : ownOutput (fun _ => []) unsignedThenSigned (fun _ => 0xffffffff) =
      asciiOf "4294967295 -1" := by decide +kernel
  have printed := (vsnprintf_independent_iff (show textCount unsignedThenSigned < 2 ^ 31 by decide)
    (by decide)).mpr (by decide) (fun _ => []) (fun _ => 0) 0x1000 32 (fun _ => 0xffffffff)
  have length : toCInt (UInt64.ofNat (asciiOf "4294967295 -1").length) = 13 := by decide
  rw [own, length] at printed
  exact printed ⟨by decide, by decide, by decide⟩ (by decide)

end Xlinux
