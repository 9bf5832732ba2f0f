/-
This file says what `vsnprintf` prints. A format is a list of characters and
conversions; what a conversion prints depends on its argument and on whether the
flag for the sign is set, which no conversion clears.
-/

import Xlinux.Printf.Format

namespace Xlinux

open Bytes (Memory Spells Within store add_one_add_ofNat toNat_add_one)
open List Kernel Nat UInt64

/-! ### Formats -/

/-- The conversions that are supported. -/
inductive Conversion
  | c | s | p | o | x | X | d | i | u
  deriving DecidableEq, Repr

/-- The character of a conversion. -/
def Conversion.letter : Conversion → UInt8
  | .c => 'c'.toUInt8
  | .s => 's'.toUInt8
  | .p => 'p'.toUInt8
  | .o => 'o'.toUInt8
  | .x => 'x'.toUInt8
  | .X => 'X'.toUInt8
  | .d => 'd'.toUInt8
  | .i => 'i'.toUInt8
  | .u => 'u'.toUInt8

/-- The conversions that set the flag for the sign. -/
def Conversion.signed : Conversion → Bool
  | .d | .i => true
  | _ => false

/-- A character of a format that stands for itself. -/
abbrev TextChar := { c : UInt8 // c ≠ 0 ∧ c ≠ '%'.toUInt8 }

/-- Part of a format: a character, or a conversion with or without the qualifier `l`. -/
inductive Piece
  | text (c : TextChar)
  | conv (long : Bool) (conversion : Conversion)
  deriving DecidableEq

def Piece.format : Piece → List UInt8
  | .text c => [c.1]
  | .conv long conversion =>
    '%'.toUInt8 :: ((if long then ['l'.toUInt8] else []) ++ [conversion.letter])

/-- The format of some parts. -/
def formatOf (pieces : List Piece) : List UInt8 := pieces.flatMap Piece.format

/-! ### What is printed -/

/-- A number in some base. -/
def textOf (base n : Nat) : List UInt8 :=
  if n = 0 then [hexAscUpper 0] else ((Nat.digits base n).map hexAscUpper).reverse

/-- The number that is printed for an argument. -/
def numberOf (sign long : Bool) (arg : UInt64) : UInt64 :=
  if long then arg else if sign then ofCInt (toCInt arg) else arg % 2 ^ 32

/-- A number in base ten, with its sign if that is to be shown. -/
def decimalOf (sign : Bool) (num : UInt64) : List UInt8 :=
  if sign && negativeWord num then '-'.toUInt8 :: textOf 10 (0 - num).toNat else textOf 10 num.toNat

/-- What a conversion prints when the flag for the sign is set, or is not set. -/
def rendered (strings : UInt64 → List UInt8) (sign long : Bool) (conversion : Conversion)
    (arg : UInt64) : List UInt8 :=
  match conversion with
  | .c => [UInt8.ofNat arg.toNat]
  | .s => ((checkPointerMsg arg).getD (strings arg)).take (2 ^ 32 - 1)
  | .p => textOf 16 arg.toNat
  | .o => textOf 8 (numberOf sign long arg).toNat
  | .x | .X => textOf 16 (numberOf sign long arg).toNat
  | .d | .i | .u => decimalOf sign (numberOf sign long arg)

/-- What a format prints when the flag for the sign is set at its start, or is not. -/
def outputFrom (strings : UInt64 → List UInt8) : Bool → List Piece → VaList → List UInt8
  | _, [], _ => []
  | sign, .text c :: rest, args => c.1 :: outputFrom strings sign rest args
  | sign, .conv long conversion :: rest, args =>
    rendered strings (sign || conversion.signed) long conversion (args 0) ++
      outputFrom strings (sign || conversion.signed) rest args.rest

/-- What a format prints. -/
def output (strings : UInt64 → List UInt8) (pieces : List Piece) (args : VaList) : List UInt8 :=
  outputFrom strings false pieces args

/-! ### Positions and memory -/

section Memory

variable {end_ : UInt64} {buf : PrintBuf} {bytes more : List UInt8}

/-- Put some characters one after the other. -/
def PrintBuf.puts (end_ : UInt64) (buf : PrintBuf) (bytes : List UInt8) : PrintBuf :=
  bytes.foldl (PrintBuf.put end_) buf

theorem PrintBuf.puts_append (first second : List UInt8) :
    buf.puts end_ (first ++ second) = (buf.puts end_ first).puts end_ second :=
  foldl_append

/-- Characters go where there is room for them. -/
theorem PrintBuf.puts_eq (fits : buf.str.toNat + bytes.length < 2 ^ 64) : buf.puts end_ bytes =
    ⟨store (bytes.take (end_.toNat - buf.str.toNat)) buf.str buf.memory,
      buf.str + UInt64.ofNat bytes.length⟩ := by
  induction bytes generalizing buf with
  | nil => simp [puts, store]
  | cons c rest ih =>
    rw [length_cons] at fits
    have next : (buf.put end_ c).str.toNat = buf.str.toNat + 1 := toNat_add_one fits
    rw [puts, foldl_cons, ← puts, ih (by omega), next, PrintBuf.put, length_cons, add_one_add_ofNat,
      ← Nat.sub_sub]
    by_cases before : buf.str < end_
    · obtain ⟨left, eq⟩ := Nat.exists_eq_add_of_lt (lt_iff_toNat_lt.mp before)
      rw [if_pos before, eq, add_assoc, Nat.add_sub_cancel_left, take_succ_cons, store,
        Nat.add_sub_cancel]
    · have after : end_.toNat ≤ buf.str.toNat := Nat.le_of_not_lt before
      rw [if_neg before, Nat.sub_eq_zero_of_le after]
      rfl

/-- Some characters fit in the memory behind a position, and the end is not too far from it. -/
structure PrintRoom (str end_ : UInt64) (length : Nat) : Prop where
  fits : str.toNat + length < 2 ^ 64
  near : end_.toNat < str.toNat + 2 ^ 63

theorem PrintRoom.next (room : PrintRoom buf.str end_ (bytes ++ more).length) :
    PrintRoom (buf.puts end_ bytes).str end_ more.length := by
  obtain ⟨fits, near⟩ := room
  rw [length_append] at fits
  have moved : (buf.puts end_ bytes).str.toNat = buf.str.toNat + bytes.length := by
    rw [PrintBuf.puts_eq (by omega)]
    exact toNat_add_ofNat (by omega)
  constructor <;> omega

theorem printText_eq {text : List UInt8} (room : PrintRoom buf.str end_ text.length) :
    printText end_ text buf = .ok (buf.puts end_ text) := by
  rw [printText, PrintBuf.puts_eq room.fits]
  by_cases before : buf.str < end_
  · have left := UInt64.toNat_sub_of_le _ _ (UInt64.le_of_lt before)
    have near := room.near
    rw [if_pos before, left, if_neg (by omega), ← take_take,
      take_of_length_le (length_take_le' _ _)]
    rfl
  · have after : end_.toNat ≤ buf.str.toNat := Nat.le_of_not_lt before
    rw [if_neg before, Nat.sub_eq_zero_of_le after]
    rfl

end Memory

/-! ### Numbers -/

section Numbers

variable {base : Nat}

theorem textOf_eq (large : 1 < base) (n : Nat) :
    textOf base n = if n / base = 0 then [hexAscUpper (n % base)]
      else textOf base (n / base) ++ [hexAscUpper (n % base)] := by
  by_cases zero : n = 0
  · rw [zero, Nat.zero_div, if_pos rfl, zero_mod, textOf, if_pos rfl]
  · rw [textOf, if_neg zero, digits_def' large (pos_of_ne_zero zero), map_cons,
      reverse_cons]
    split_ifs with less
    · rw [less, digits_zero, map_nil, reverse_nil, nil_append]
    · rw [textOf, if_neg less]

/-- The loops of `number` find the digits of a number that is not too long for `tmp`. -/
theorem digitLoop_ok {digit : UInt64 → Nat} {next : UInt64 → UInt64} (large : 1 < base)
    (last : ∀ num, digit num = num.toNat % base)
    (others : ∀ num, (next num).toNat = num.toNat / base)
    {room : Nat} {num : UInt64} (fits : num.toNat < base ^ (room + 1)) (tmp : List UInt8) :
    digitLoop digit next (room + 1) num tmp = .ok (textOf base num.toNat ++ tmp) := by
  induction room generalizing num tmp with
  | zero =>
    have stop : (next num).toNat = 0 := by
      rw [others, div_eq_of_lt (by simpa using fits)]
    rw [digitLoop, if_pos (UInt64.toNat_inj.mp stop), textOf_eq large, ← others, if_pos stop, last]
    rfl
  | succ room ih =>
    rw [digitLoop, textOf_eq large, ← others, last]
    by_cases stop : next num = 0
    · have zero : (next num).toNat = 0 := by rw [stop, UInt64.toNat_zero]
      rw [if_pos stop, if_pos zero]
      rfl
    · have more : ¬ (next num).toNat = 0 := fun zero => stop (UInt64.toNat_inj.mp zero)
      have smaller : (next num).toNat < base ^ (room + 1) := by
        rw [others, div_lt_iff_lt_mul (by omega)]
        exact fits
      rw [if_neg stop, if_neg more, ih smaller, append_assoc]
      rfl

theorem decimalDigits_ok (num : UInt64) : decimalDigits num = .ok (textOf 10 num.toNat) := by
  have fits : num.toNat < 10 ^ (23 + 1) := num.toNat_lt.trans (by decide)
  rw [decimalDigits, digitLoop_ok (by decide) (fun num => ?_) (fun num => ?_) fits, append_nil]
  · rfl
  · rfl

theorem maskDigits_ok {bits : Nat} (small : 3 ≤ bits ∧ bits ≤ 8) (num : UInt64) :
    maskDigits (UInt64.ofNat (2 ^ bits - 1)) bits num = .ok (textOf (2 ^ bits) num.toNat) := by
  have large : 1 < 2 ^ bits := Nat.one_lt_two_pow (by omega)
  have fits : num.toNat < (2 ^ bits) ^ (23 + 1) := by
    refine num.toNat_lt.trans_le ?_
    rw [← pow_mul]
    exact Nat.pow_le_pow_right (by decide) (by omega)
  have mask : (ofNat (2 ^ bits - 1)).toNat = 2 ^ bits - 1 := by
    refine toNat_ofNat_of_lt' ?_
    have bound : 2 ^ bits ≤ 2 ^ 8 := Nat.pow_le_pow_right (by decide) small.2
    exact (sub_le _ _).trans_lt (bound.trans_lt (by decide))
  rw [maskDigits, digitLoop_ok large (fun num => ?_) (fun num => ?_) fits, append_nil]
  · rw [toNat_and_mask _ mask]
    exact mod_mod_of_dvd _ (pow_dvd_pow 2 small.2)
  · have shift : (ofNat bits).toNat = bits := toNat_ofNat_of_lt' (small.2.trans_lt (by decide))
    rw [UInt64.toNat_shiftRight, shift, mod_eq_of_lt (by omega), shiftRight_eq_div_pow]

variable {end_ : UInt64} {buf : PrintBuf} {spec : PrintfSpec} {sign : Bool}

theorem number_hex (hex : spec.base = 16) (num : UInt64) :
    number end_ num spec buf = .ok (buf.puts end_ (textOf 16 num.toNat)) := by
  have digits := @maskDigits_ok 4 (by decide) num
  rw [number, hex]
  exact congrArg (· >>= fun tmp => pure (PrintBuf.puts end_ buf tmp)) digits

theorem number_octal (octal : spec.base = 8) (num : UInt64) :
    number end_ num spec buf = .ok (buf.puts end_ (textOf 8 num.toNat)) := by
  have digits := @maskDigits_ok 3 (by decide) num
  rw [number, octal, if_pos (.inr rfl)]
  exact congrArg (· >>= fun tmp => pure (PrintBuf.puts end_ buf tmp)) digits

/-- The flags of a specification have the flag for the sign. -/
def Signed (spec : PrintfSpec) (sign : Bool) : Prop := decide (spec.flags &&& signFlag ≠ 0) = sign

theorem number_decimal (decimal : spec.base = 10) (signed : Signed spec sign) (num : UInt64) :
    number end_ num spec buf = .ok (buf.puts end_ (decimalOf sign num)) := by
  rw [number, decimal, if_neg (by decide), if_pos rfl, signed, decimalOf]
  cases sign && negativeWord num with
  | true =>
    rw [decimalDigits_ok]
    rfl
  | false =>
    rw [if_neg nofun, decimalDigits_ok]
    rfl

end Numbers

/-! ### Conversions -/

section Conversions

variable {strings : UInt64 → List UInt8} {end_ : UInt64} {buf : PrintBuf} {spec : PrintfSpec}
  {sign long : Bool} {conversion : Conversion} {args : VaList}

theorem stringLoop_eq (lim : Nat) (s : List UInt8) :
    stringLoop end_ lim s buf = buf.puts end_ (s.take lim) := by
  induction lim generalizing s buf with
  | zero => rfl
  | succ lim ih =>
    cases s with
    | nil => rfl
    | cons c s => exact ih s

theorem stringAt_eq (all : spec.precision = -1) (ptr : UInt64) :
    stringAt end_ strings ptr spec buf =
      buf.puts end_ (((checkPointerMsg ptr).getD (strings ptr)).take (2 ^ 32 - 1)) := by
  have lim : (spec.precision % 2 ^ 32).toNat = 2 ^ 32 - 1 := by
    rw [all]
    rfl
  have loop : ∀ s, stringNocheck end_ s spec buf = buf.puts end_ (s.take (2 ^ 32 - 1)) :=
    fun s => by
    rw [stringNocheck, lim, stringLoop_eq]
  rw [stringAt]
  cases checkPointerMsg ptr <;> exact loop _

/-- The specification that a conversion is decoded to. -/
def decoded (long : Bool) (conversion : Conversion) (spec : PrintfSpec) : PrintfSpec :=
  let spec := { spec with precision := -1, base := 10 }
  match conversion with
  | .c => { spec with type := .char }
  | .s => { spec with type := .str }
  | .p => { spec with type := .ptr }
  | .o => decodeNumber long { spec with base := 8 }
  | .x | .X => decodeNumber long { spec with base := 16 }
  | .d | .i => decodeNumber long { spec with flags := spec.flags ||| signFlag }
  | .u => decodeNumber long spec

theorem formatDecode_conv (rest : List UInt8) (spec : PrintfSpec) :
    formatDecode ((Piece.conv long conversion).format ++ rest) spec =
      .ok ((Piece.conv long conversion).format.length, decoded long conversion spec) := by
  cases long <;> cases conversion <;> rfl

theorem or_signFlag_and (flags : UInt8) : (flags ||| signFlag) &&& signFlag = signFlag := by
  apply UInt8.eq_of_toBitVec_eq
  ext i
  simp only [UInt8.toBitVec_and, UInt8.toBitVec_or, BitVec.getElem_and, BitVec.getElem_or]
  cases flags.toBitVec[i] <;> simp

theorem Signed.decoded (signed : Signed spec sign) :
    Signed (decoded long conversion spec) (sign || conversion.signed) := by
  have set : decide ((spec.flags ||| signFlag) &&& signFlag ≠ 0) = true := by
    rw [or_signFlag_and]
    decide
  cases conversion with
  | d | i => exact set.trans (Bool.or_true sign).symm
  | _ => exact signed.trans (Bool.or_false sign).symm

theorem decodeNumber_type (signed : Signed spec sign) :
    (decodeNumber long spec).type = if long then .ulong else if sign then .int else .uint := by
  cases long with
  | true => rfl
  | false =>
    show (if spec.flags &&& signFlag = 0 then FormatType.uint else .int) =
      if sign then .int else .uint
    rw [← signed]
    by_cases clear : spec.flags &&& signFlag = 0
    · rw [if_pos clear, decide_eq_false (not_not.mpr clear), if_neg nofun]
    · rw [if_neg clear, decide_eq_true clear, if_pos rfl]

theorem printSpec_decodeNumber (signed : Signed spec sign) (text : List UInt8) {bytes : List UInt8}
    (printed : number end_ (numberOf sign long (args 0)) (decodeNumber long spec) buf =
      .ok (buf.puts end_ bytes)) :
    printSpec strings end_ text (decodeNumber long spec) args buf =
      .ok (buf.puts end_ bytes, args.rest) := by
  have type := @decodeNumber_type _ _ long signed
  rw [printSpec, type]
  cases long <;> cases sign <;> exact congrArg (· >>= fun buf => pure (buf, args.rest)) printed

/-- The `switch` of `vsnprintf` prints what the conversion renders. -/
theorem printSpec_decoded (signed : Signed spec sign) (text : List UInt8) :
    printSpec strings end_ text (decoded long conversion spec) args buf =
      .ok (buf.puts end_ (rendered strings (sign || conversion.signed) long conversion (args 0)),
        args.rest) := by
  have after : Signed (decoded long conversion spec) (sign || conversion.signed) := signed.decoded
  cases conversion with
  | c => rfl
  | s => exact congrArg (fun buf => Except.ok (buf, args.rest)) (stringAt_eq rfl (args 0))
  | p =>
    have hex := @number_hex end_ buf _ (by rfl : ({ decoded long .p spec with
      base := 16, flags := (decoded long .p spec).flags ||| smallFlag } : PrintfSpec).base =
        16) (args 0)
    exact congrArg (· >>= fun buf => pure (buf, args.rest)) hex
  | o => exact printSpec_decodeNumber after text (number_octal rfl _)
  | x | X => exact printSpec_decodeNumber after text (number_hex rfl _)
  | d | i | u => exact printSpec_decodeNumber after text (number_decimal rfl after _)

end Conversions

/-! ### The loop -/

section Loop

variable {strings : UInt64 → List UInt8} {end_ : UInt64} {buf : PrintBuf} {spec : PrintfSpec}
  {sign : Bool} {args : VaList} {pieces : List Piece}

/-- The text at the start of a format, and the parts after it. -/
def leadingText : List Piece → List UInt8
  | .text c :: rest => c.1 :: leadingText rest
  | _ => []

def afterText : List Piece → List Piece
  | .text _ :: rest => afterText rest
  | pieces => pieces

theorem takeWhile_formatOf (pieces : List Piece) :
    ((formatOf pieces).takeWhile fun c => c ≠ '%'.toUInt8) = leadingText pieces := by
  induction pieces with
  | nil => rfl
  | cons piece rest ih =>
    cases piece with
    | text c =>
      rw [formatOf, flatMap_cons, ← formatOf, Piece.format, singleton_append,
        takeWhile_cons_of_pos (by simpa using c.2.2), ih, leadingText]
    | conv long conversion => rfl

theorem formatOf_eq (pieces : List Piece) :
    formatOf pieces = leadingText pieces ++ formatOf (afterText pieces) := by
  induction pieces with
  | nil => rfl
  | cons piece rest ih =>
    cases piece with
    | text c =>
      rw [formatOf, flatMap_cons, ← formatOf, ih]
      rfl
    | conv long conversion => rfl

theorem outputFrom_eq (pieces : List Piece) :
    outputFrom strings sign pieces args =
      leadingText pieces ++ outputFrom strings sign (afterText pieces) args := by
  induction pieces with
  | nil => rfl
  | cons piece rest ih =>
    cases piece with
    | text c => rw [outputFrom, ih]; rfl
    | conv long conversion => rfl

theorem tooLong_of_lt {read : Nat} (short : read < 2 ^ 31) : tooLong read = false :=
  decide_eq_false (not_not.mpr (toCInt_ofNat short))

/-- One turn of the loop at some text. -/
theorem printLoop_text (c : TextChar) (rest : List Piece) (turns : Nat)
    (short : (leadingText (.text c :: rest)).length < 2 ^ 31)
    (room : PrintRoom buf.str end_ (leadingText (.text c :: rest)).length) :
    printLoop strings end_ (turns + 1) (formatOf (.text c :: rest)) spec args buf =
      printLoop strings end_ turns (formatOf (afterText (.text c :: rest)))
        { spec with type := .none } args (buf.puts end_ (leadingText (.text c :: rest))) := by
  have decode : formatDecode (formatOf (.text c :: rest)) spec =
      .ok ((leadingText (.text c :: rest)).length, { spec with type := .none }) := by
    rw [formatDecode, takeWhile_formatOf]
    exact if_pos (.inl (cons_ne_nil _ _))
  have fits := tooLong_of_lt short
  rw [printLoop, decode, ok_bind]
  dsimp only
  rw [fits, formatOf_eq, take_left, drop_left, printSpec, printText_eq room]
  rfl

/-- One turn of the loop at a conversion. -/
theorem printLoop_conv (signed : Signed spec sign) (long : Bool) (conversion : Conversion)
    (rest : List Piece) (turns : Nat) :
    printLoop strings end_ (turns + 1) (formatOf (.conv long conversion :: rest)) spec args buf =
      printLoop strings end_ turns (formatOf rest) (decoded long conversion spec) args.rest
        (buf.puts end_
          (rendered strings (sign || conversion.signed) long conversion (args 0))) := by
  have short : (Piece.conv long conversion).format.length < 2 ^ 31 := by
    cases long <;> simp [Piece.format]
  have nonempty : (Piece.conv long conversion).format ++ formatOf rest ≠ [] := cons_ne_nil _ _
  rw [formatOf, flatMap_cons, ← formatOf, printLoop, if_neg nonempty, formatDecode_conv, ok_bind]
  dsimp only
  rw [tooLong_of_lt short, if_neg nofun, drop_left, printSpec_decoded signed, ok_bind]

/-- The number of characters that stand for themselves. -/
def textCount : List Piece → Nat
  | [] => 0
  | .text _ :: rest => textCount rest + 1
  | .conv _ _ :: rest => textCount rest

theorem textCount_eq (pieces : List Piece) :
    textCount pieces = (leadingText pieces).length + textCount (afterText pieces) := by
  induction pieces with
  | nil => rfl
  | cons piece rest ih =>
    cases piece with
    | text c =>
      rw [textCount, ih, leadingText]
      exact add_right_comm ..
    | conv long conversion => exact (zero_add _).symm

/-- The loop of `vsnprintf` prints what the format prints. -/
theorem printLoop_ok (signed : Signed spec sign) {turns : Nat}
    (enough : (formatOf pieces).length < turns) (short : textCount pieces < 2 ^ 31)
    (room : PrintRoom buf.str end_ (outputFrom strings sign pieces args).length) :
    printLoop strings end_ turns (formatOf pieces) spec args buf =
      .ok (buf.puts end_ (outputFrom strings sign pieces args)) := by
  induction turns generalizing pieces spec sign args buf with
  | zero => cases enough
  | succ turns ih =>
    cases pieces with
    | nil => rfl
    | cons piece rest =>
      cases piece with
      | text c =>
        have lengths := congrArg length (formatOf_eq (.text c :: rest))
        rw [length_append] at lengths
        have some : 0 < (leadingText (.text c :: rest)).length := succ_pos _
        have counts := textCount_eq (.text c :: rest)
        have next : Signed { spec with type := FormatType.none } sign := signed
        rw [outputFrom_eq] at room
        have here : PrintRoom buf.str end_ (leadingText (.text c :: rest)).length :=
          ⟨(add_le_add_right (by simp) _).trans_lt room.fits, room.near⟩
        rw [printLoop_text c rest turns (by omega) here,
          ih next (by omega) (by omega) room.next, ← PrintBuf.puts_append, ← outputFrom_eq]
      | conv long conversion =>
        have lengths : (formatOf (.conv long conversion :: rest)).length =
            (Piece.conv long conversion).format.length + (formatOf rest).length := length_append
        have some : 0 < (Piece.conv long conversion).format.length := succ_pos _
        have fewer : textCount rest < 2 ^ 31 := short
        rw [printLoop_conv signed,
          ih signed.decoded (by omega) fewer room.next, ← PrintBuf.puts_append, outputFrom]

end Loop

/-! ### Truncation -/

section Truncation

variable {strings : UInt64 → List UInt8} {pieces : List Piece} {args : VaList}

/-- A buffer does not reach the end of the address space, and neither does the output if it were
stored as a whole. -/
structure BufferRoom (buf size : UInt64) (length : Nat) : Prop where
  ends : buf.toNat + size.toNat < 2 ^ 64
  fits : buf.toNat + length < 2 ^ 64
  small : size.toNat < 2 ^ 63

/-- What a call of `vsnprintf` leaves: the start of some text and a `NUL` in the buffer, and nothing
outside it. -/
structure Truncated (memory : Memory) (buf size : UInt64) (text : List UInt8) (after : Memory) :
    Prop where
  inside : 0 < size → Spells after buf (text.take (size.toNat - 1) ++ [0])
  outside : ∀ addr, ¬Within buf size.toNat addr → after addr = memory addr

/-- The `NUL` is put behind the text, or over the last character that was stored. -/
theorem truncated_put {memory : Memory} {buf size : UInt64} (text : List UInt8)
    (some : 0 < size.toNat)
    (ends : buf.toNat + size.toNat < 2 ^ 64) : Truncated memory buf size text
      (Bytes.put (store (text.take size.toNat) buf memory)
        (buf + ofNat (min text.length (size.toNat - 1))) 0) := by
  have place := @toNat_add_ofNat buf (min text.length (size.toNat - 1)) (by omega)
  have length : (text.take (size.toNat - 1)).length = min text.length (size.toNat - 1) := by
    rw [length_take, min_comm]
  have room : buf.toNat + (text.take size.toNat).length < 2 ^ 64 := by
    rw [length_take]
    omega
  refine ⟨fun _ => Bytes.spells_append.mpr ⟨?_, ?_, trivial⟩, fun addr outside => ?_⟩
  · have stored := @Bytes.spells_store memory buf (text.take size.toNat) room
    generalize store (text.take size.toNat) buf memory = filled at stored ⊢
    rw [← take_append_drop (size.toNat - 1) (text.take size.toNat), Bytes.spells_append, take_take,
      min_eq_left (sub_le ..)] at stored
    refine stored.1.congr (by omega) fun addr inside => if_neg ?_
    rintro rfl
    have := inside.2
    omega
  · rw [length]
    exact if_pos rfl
  · have apart : addr ≠ buf + ofNat (min text.length (size.toNat - 1)) := by
      rintro rfl
      exact outside ⟨by omega, by omega⟩
    rw [Bytes.put, if_neg apart, Bytes.store_outside room fun inside => outside ⟨inside.1, ?_⟩]
    exact inside.2.trans_le (by rw [length_take]; omega)

/-- `vsnprintf` returns the length of the whole output, writes as much of it as there is room for,
and nothing outside the buffer. -/
theorem vsnprintf_ok (short : textCount pieces < 2 ^ 31) {buf size : UInt64}
    (room : BufferRoom buf size (output strings pieces args).length) (memory : Memory) :
    ∃ after, vsnprintf strings memory buf size (formatOf pieces) args =
        .ok (toCInt (ofNat (output strings pieces args).length), after) ∧
      Truncated memory buf size (output strings pieces args) after := by
  obtain ⟨ends, fits, small⟩ := room
  have end_eq := toNat_add_of_lt ends
  have unsigned : Signed ⟨.none, 0, 0, 0⟩ false :=
    show decide (0 &&& signFlag ≠ 0) = false by decide
  have looped := @printLoop_ok strings (buf + size) ⟨memory, buf⟩ _ _ args pieces unsigned _
    (lt_succ_self _) short ⟨fits, by rw [end_eq]; exact Nat.add_lt_add_left small _⟩
  rw [← output, PrintBuf.puts_eq fits, end_eq, Nat.add_sub_cancel_left] at looped
  have str := toNat_add_ofNat fits
  rw [vsnprintf, looped, ok_bind]
  refine ⟨_, congrArg (fun length => Except.ok (toCInt length, _)) (add_sub_cancel_left _ _), ?_⟩
  by_cases some : 0 < size
  · have positive : 0 < size.toNat := some
    have place : (if buf + ofNat (output strings pieces args).length < buf + size then
        buf + ofNat (output strings pieces args).length else buf + size - 1) =
          buf + ofNat (min (output strings pieces args).length (size.toNat - 1)) := by
      split_ifs with before <;> rw [UInt64.lt_iff_toNat_lt, str, end_eq] at before
      · rw [min_eq_left (by omega)]
      · rw [min_eq_right (by omega), ofNat_sub positive, UInt64.ofNat_toNat, add_sub_assoc]
        rfl
    rw [if_pos some, place]
    exact truncated_put _ positive ends
  · have none : size.toNat = 0 := Nat.eq_zero_of_not_pos some
    rw [if_neg some, none]
    exact ⟨fun more => absurd more some, fun _ _ => rfl⟩

end Truncation

end Xlinux
