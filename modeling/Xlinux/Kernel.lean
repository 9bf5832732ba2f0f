/-
This file names the ways a kernel function can fail to return: the macros
`panic` and `BUG_ON` of `include/bug.h`, which print and halt, an access through
a null pointer or outside an array, and a loop that does not end.
-/

import Mathlib

namespace Xlinux

/-- Why the kernel stopped. -/
inductive Fault
  /-- `panic(message)`. -/
  | panic (message : String)
  /-- `BUG_ON(condition)` with a true condition. -/
  | bug
  /-- An access through `NULL`. -/
  | nullPointer
  /-- An access to an array entry that is not in use. -/
  | outOfBounds
  /-- A loop that is still running after the turns the model gives it. -/
  | endless
  deriving DecidableEq, Repr

/-- The result of a kernel function that may stop the kernel. -/
abbrev Kernel := Except Fault

theorem Kernel.ok_bind {α β : Type} (value : α) (next : α → Kernel β) :
    (Except.ok value >>= next) = next value :=
  rfl

theorem Kernel.bind_ok {α β : Type} {first : Kernel α} {next : α → Kernel β} {result : β} :
    first >>= next = .ok result ↔ ∃ value, first = .ok value ∧ next value = .ok result := by
  cases first with
  | error fault => exact ⟨nofun, fun ⟨_, returns, _⟩ => nomatch returns⟩
  | ok value => exact ⟨fun after => ⟨value, rfl, after⟩, fun ⟨_, .refl _, after⟩ => after⟩

/-- What a computation is seen to give, it gives. -/
theorem exists_ok_of_map {ε α β : Type} {code : Except ε α} {seen : α → β} {value : β}
    (ran : code.map seen = .ok value) : ∃ result, code = .ok result ∧ seen result = value := by
  cases code with
  | error error => cases ran
  | ok result => exact ⟨result, rfl, Except.ok.inj ran⟩

/-- `ENOENT`. -/
def enoent : Int := 2

/-- `ENOMEM`. -/
def enomem : Int := 12

/-- `EINVAL`. -/
def einval : Int := 22

/-- More turns than there are addresses. -/
def maxTurns : Nat := 2 ^ 64

theorem maxTurns_eq : maxTurns = 18446744073709551614 + 1 + 1 := rfl

/-- Why a run of calls ends: the caller makes a call it may not make, or the kernel stops. -/
inductive Halt
  | misuse
  | fault (fault : Fault)
  deriving DecidableEq, Repr

/-- A string of C, without the byte at its end. -/
structure CString where
  bytes : List UInt8
  nonzero : ∀ byte ∈ bytes, byte ≠ 0

/-- A string with the byte at its end. -/
def CString.terminated (string : CString) : List UInt8 := string.bytes ++ [0]

end Xlinux
