/-
This file models `vsnprintf` of `lib/vsprintf.c` and `kvasprintf` of
`kalloc/kasprintf.c`. Characters are bytes, and a string is the list of its
characters up to the `NUL`. Positions are addresses, and `end` may wrap around; the
arguments are the words of the `va_list`, and what a pointer argument points to is a
function of the word.
-/

import Xlinux.Kernel
import Xlinux.Lib.Bytes
import Xlinux.Word

namespace Xlinux

open Bytes (Memory store)

/-! ### Specifications -/

/-- The values of `enum format_type` that are used. -/
inductive FormatType
  | none
  | char
  | str
  | ptr
  | invalid
  | ulong
  | long
  | uint
  | int
  deriving DecidableEq, Repr

/-- `SIGN` and `SMALL`. -/
def signFlag : UInt8 := 1

def smallFlag : UInt8 := 32

/-- `struct printf_spec`; the field width is not used. -/
structure PrintfSpec where
  type : FormatType
  flags : UInt8
  base : Nat
  precision : Int
  deriving DecidableEq, Repr

/-- The words of the arguments that have not been taken. -/
abbrev VaList := Nat → UInt64

/-- The arguments after the first one has been taken. -/
def VaList.rest (args : VaList) : VaList := fun n => args (n + 1)

/-- `FORMAT_TYPE_UINT + sign`. -/
def formatTypeUintPlus (sign : UInt8) : FormatType := if sign = 0 then .uint else .int

/-! ### Output -/

/-- The memory and the position `str`. -/
structure PrintBuf where
  memory : Memory
  str : UInt64

/-- `if (buf < end) *buf = c; ++buf;`. -/
def PrintBuf.put (end_ : UInt64) (buf : PrintBuf) (c : UInt8) : PrintBuf where
  memory := if buf.str < end_ then Bytes.put buf.memory buf.str c else buf.memory
  str := buf.str + 1

/-- The loop of `string_nocheck`, with what is left of the limit. -/
def stringLoop (end_ : UInt64) : Nat → List UInt8 → PrintBuf → PrintBuf
  | 0, _, buf => buf
  | _ + 1, [], buf => buf
  | lim + 1, c :: s, buf => stringLoop end_ lim s (buf.put end_ c)

/-- `string_nocheck`. The limit is counted down as an `int`, so that `-1` means all ones. -/
def stringNocheck (end_ : UInt64) (s : List UInt8) (spec : PrintfSpec) (buf : PrintBuf) :
    PrintBuf :=
  stringLoop end_ (spec.precision % 2 ^ 32).toNat s buf

/-- The characters of a text of the source. -/
def asciiOf (text : String) : List UInt8 := text.toList.map fun c => UInt8.ofNat c.toNat

/-- `check_pointer_msg`. -/
def checkPointerMsg (ptr : UInt64) : Option (List UInt8) :=
  if ptr = 0 then some (asciiOf "(null)")
  else if ptr < pageSize || ptr ≥ 0 - 4095 then some (asciiOf "(efault)")
  else none

/-- `string`, for a pointer and what it points to. -/
def stringAt (end_ : UInt64) (strings : UInt64 → List UInt8) (ptr : UInt64) (spec : PrintfSpec)
    (buf : PrintBuf) : PrintBuf :=
  match checkPointerMsg ptr with
  | some message => stringNocheck end_ message spec buf
  | none => stringNocheck end_ (strings ptr) spec buf

/-- `hex_asc_upper`. -/
def hexAscUpper (digit : Nat) : UInt8 :=
  if digit < 10 then UInt8.ofNat (48 + digit) else UInt8.ofNat (55 + digit)

/-- A loop of `number` that fills `tmp`, the last character first. The array has 24 entries. -/
def digitLoop (digit : UInt64 → Nat) (next : UInt64 → UInt64) :
    Nat → UInt64 → List UInt8 → Kernel (List UInt8)
  | 0, _, _ => throw .outOfBounds
  | room + 1, num, tmp =>
    let tmp := hexAscUpper (digit num) :: tmp
    if next num = 0 then return tmp else digitLoop digit next room (next num) tmp

/-- The digits for base 16 or 8. -/
def maskDigits (mask : UInt64) (shift : Nat) (num : UInt64) : Kernel (List UInt8) :=
  digitLoop (fun num => (num % 256 &&& mask).toNat)
    (fun num => num >>> UInt64.ofNat shift) 24 num []

/-- The digits for base 10. -/
def decimalDigits (num : UInt64) : Kernel (List UInt8) :=
  digitLoop (fun num => (num % 10).toNat) (fun num => num / 10) 24 num []

/-- Whether `(signed long long)num < 0`. -/
def negativeWord (num : UInt64) : Bool := num ≥ (1 : UInt64) <<< 63

/-- `number`. -/
def number (end_ : UInt64) (num : UInt64) (spec : PrintfSpec) (buf : PrintBuf) : Kernel PrintBuf :=
  if spec.base = 16 ∨ spec.base = 8 then do
    let tmp ← maskDigits (UInt64.ofNat (spec.base - 1)) (if spec.base = 16 then 4 else 3) num
    return tmp.foldl (PrintBuf.put end_) buf
  else if spec.base = 10 then
    if spec.flags &&& signFlag ≠ 0 && negativeWord num then do
      let tmp ← decimalDigits (0 - num)
      return tmp.foldl (PrintBuf.put end_) (buf.put end_ '-'.toUInt8)
    else do
      let tmp ← decimalDigits num
      return tmp.foldl (PrintBuf.put end_) buf
  else throw .bug

/-- `pointer`, by way of `ptr_to_id` and `pointer_string`. -/
def pointerString (end_ : UInt64) (ptr : UInt64) (spec : PrintfSpec) (buf : PrintBuf) :
    Kernel PrintBuf :=
  number end_ ptr { spec with base := 16, flags := spec.flags ||| smallFlag } buf

/-! ### Conversions -/

/-- The end of `format_decode`, for a conversion of a number. -/
def decodeNumber (long : Bool) (spec : PrintfSpec) : PrintfSpec :=
  { spec with type := if long then .ulong else formatTypeUintPlus (spec.flags &&& signFlag) }

/-- The `switch` of `format_decode`, at the character of the conversion. -/
def decodeConversion (long : Bool) (c : Option UInt8) (spec : PrintfSpec) : Kernel PrintfSpec :=
  if c = some 'c'.toUInt8 then return { spec with type := .char }
  else if c = some 's'.toUInt8 then return { spec with type := .str }
  else if c = some 'p'.toUInt8 then return { spec with type := .ptr }
  else if c = some 'o'.toUInt8 then return decodeNumber long { spec with base := 8 }
  else if c = some 'X'.toUInt8 ∨ c = some 'x'.toUInt8 then
    return decodeNumber long { spec with base := 16 }
  else if c = some 'd'.toUInt8 ∨ c = some 'i'.toUInt8 then
    return decodeNumber long { spec with flags := spec.flags ||| signFlag }
  else if c = some 'u'.toUInt8 then return decodeNumber long spec
  else throw .bug

/-- `format_decode`, with the number of characters that are read. -/
def formatDecode (fmt : List UInt8) (spec : PrintfSpec) : Kernel (Nat × PrintfSpec) :=
  let text := fmt.takeWhile fun c => c ≠ '%'.toUInt8
  let spec := { spec with type := .none }
  if text ≠ [] ∨ fmt = [] then return (text.length, spec)
  else do
    let fmt := fmt.drop 1
    let spec := { spec with precision := -1, base := 10 }
    let long := fmt.head? = some 'l'.toUInt8
    let spec ← decodeConversion long (if long then fmt.drop 1 else fmt).head? spec
    return (if long then 3 else 2, spec)

/-- The argument of a conversion of a number. -/
def numberArg (type : FormatType) (arg : UInt64) : Kernel UInt64 :=
  match type with
  | .ulong | .long => return arg
  | .int => return ofCInt (toCInt arg)
  | .uint => return arg % 2 ^ 32
  | _ => throw .bug

/-- The case `FORMAT_TYPE_NONE` of `vsnprintf`, where `end - str` has to be a `ptrdiff_t`. -/
def printText (end_ : UInt64) (text : List UInt8) (buf : PrintBuf) : Kernel PrintBuf :=
  let left := (end_ - buf.str).toNat
  if buf.str < end_ then
    if 2 ^ 63 ≤ left then throw .outOfBounds
    else
      let copied := text.take (min text.length left)
      return ⟨store copied buf.str buf.memory, buf.str + UInt64.ofNat text.length⟩
  else return ⟨buf.memory, buf.str + UInt64.ofNat text.length⟩

/-- The `switch` of `vsnprintf`, with the arguments that are left. -/
def printSpec (strings : UInt64 → List UInt8) (end_ : UInt64) (text : List UInt8)
    (spec : PrintfSpec) (args : VaList) (buf : PrintBuf) : Kernel (PrintBuf × VaList) :=
  match spec.type with
  | .none => return (← printText end_ text buf, args)
  | .char => return (buf.put end_ (UInt8.ofNat (args 0).toNat), args.rest)
  | .str => return (stringAt end_ strings (args 0) spec buf, args.rest)
  | .ptr => return (← pointerString end_ (args 0) spec buf, args.rest)
  | type => return (← number end_ (← numberArg type (args 0)) spec buf, args.rest)

/-- Whether the number of characters that are read does not fit in an `int`. -/
def tooLong (read : Nat) : Bool := toCInt (UInt64.ofNat read) ≠ read

/-- The loop of `vsnprintf`. A text that is too long leads out of the format. -/
def printLoop (strings : UInt64 → List UInt8) (end_ : UInt64) :
    Nat → List UInt8 → PrintfSpec → VaList → PrintBuf → Kernel PrintBuf
  | 0, _, _, _, _ => throw .endless
  | turns + 1, fmt, spec, args, buf =>
    if fmt = [] then return buf
    else do
      let (read, spec) ← formatDecode fmt spec
      if tooLong read then throw .outOfBounds
      else do
        let (buf, args) ← printSpec strings end_ (fmt.take read) spec args buf
        printLoop strings end_ turns (fmt.drop read) spec args buf

/-- `vsnprintf`: the number that is returned, and the memory. -/
def vsnprintf (strings : UInt64 → List UInt8) (memory : Memory) (buf size : UInt64)
    (fmt : List UInt8) (args : VaList) : Kernel (Int × Memory) := do
  let end_ := buf + size
  let out ← printLoop strings end_ (fmt.length + 1) fmt ⟨.none, 0, 0, 0⟩ args ⟨memory, buf⟩
  let memory :=
    if 0 < size then Bytes.put out.memory (if out.str < end_ then out.str else end_ - 1) 0
    else out.memory
  return (toCInt (out.str - buf), memory)

end Xlinux
