/-
This file models the iterators of `iov_iter/iov_iter.c` over lists of memory
segments, and the copy of bytes to them. The macro `iterate_kvec` treats the
first segment, which may be used in part, apart from the others, and
`iterate_and_advance` moves to the next segment when one is used up. Seen from
outside, an iterator is the list of the addresses that are still to be written.
-/

import Xlinux.Kernel
import Xlinux.Word
import Xlinux.Lib.Scatter

namespace Xlinux

open Bytes List UInt64 Nat

/-- `struct kvec`. -/
structure Kvec where
  iovBase : UInt64
  iovLen : UInt64
  deriving DecidableEq, Repr

/-- `enum iter_type`. -/
inductive IterType
  | iovec
  | kvec
  | bvec
  | pipe
  | discard
  deriving DecidableEq, Repr

/-- `struct iov_iter`, with the `nr_segs` segments from the pointer `kvec` on. -/
structure IovIter where
  type : IterType
  iovOffset : UInt64
  count : UInt64
  kvec : List Kvec
  deriving DecidableEq, Repr

/-! ### The copy -/

/-- The `while` loop of `iterate_kvec`. The pointer `__p` is at the first of the two segment
arguments; the segments after it come first. -/
def iterateKvecLoop : List Kvec → Kvec → List UInt8 → UInt64 → Memory →
    Kernel (Memory × UInt64 × List Kvec)
  | rest, here, [], skip, memory => .ok (memory, skip, here :: rest)
  | [], _, _ :: _, _, _ => throw .outOfBounds
  | next :: rest, _, byte :: bytes, skip, memory =>
    let len := min (byte :: bytes).length next.iovLen.toNat
    if len = 0 then iterateKvecLoop rest next (byte :: bytes) skip memory
    else iterateKvecLoop rest next ((byte :: bytes).drop len) (UInt64.ofNat len)
      (store ((byte :: bytes).take len) next.iovBase memory)

/-- The macro `iterate_kvec`, with `memcpy` as its step. -/
def iterateKvec (kvec : List Kvec) (bytes : List UInt8) (skip : UInt64) (memory : Memory) :
    Kernel (Memory × UInt64 × List Kvec) :=
  match kvec with
  | [] => throw .outOfBounds
  | here :: rest =>
    let len := min bytes.length (here.iovLen - skip).toNat
    if len = 0 then iterateKvecLoop rest here bytes skip memory
    else iterateKvecLoop rest here (bytes.drop len) (skip + UInt64.ofNat len)
      (store (bytes.take len) (here.iovBase + skip) memory)

/-- The end of `iterate_and_advance`: a segment that is used up is left. -/
def nextSegment (skip : UInt64) : List Kvec → UInt64 × List Kvec
  | here :: rest => if skip = here.iovLen then (0, rest) else (skip, here :: rest)
  | [] => (skip, [])

/-- `_copy_to_iter`, from a buffer with some bytes. -/
def copyToIter (source : List UInt8) (i : IovIter) (memory : Memory) :
    Kernel (UInt64 × IovIter × Memory) := do
  if i.type = .pipe then throw (.panic "is pipe!")
  if i.type = .iovec then throw (.panic "is iovec!")
  -- the macro `iterate_and_advance`
  let bytes := source.take i.count.toNat
  if i.count = 0 then return (UInt64.ofNat bytes.length, i, memory)
  match i.type with
  | .bvec => throw (.panic "no ITER_BVEC!")
  | .kvec =>
    let (memory, skip, kvec) ← iterateKvec i.kvec bytes i.iovOffset memory
    let (skip, kvec) := nextSegment skip kvec
    return (UInt64.ofNat bytes.length,
      { i with iovOffset := skip, count := i.count - UInt64.ofNat bytes.length, kvec }, memory)
  | .discard => throw (.panic "no ITER_DISCARD!")
  | _ => throw (.panic "bad i->type!")

/-! ### What is left to write -/

/-- The addresses of a segment. -/
def Kvec.targets (segment : Kvec) : List UInt64 := addresses segment.iovBase segment.iovLen.toNat

/-- The addresses of segments from an offset in the first one on. -/
def remaining (kvec : List Kvec) (skip : UInt64) : List UInt64 :=
  (kvec.flatMap Kvec.targets).drop skip.toNat

/-- The addresses that the iterator is still to write. -/
def IovIter.targets (i : IovIter) : List UInt64 := (remaining i.kvec i.iovOffset).take i.count.toNat

/-- An offset in the first segment. -/
def InsideFirst (kvec : List Kvec) (skip : UInt64) : Prop :=
  ∀ here ∈ kvec.head?, skip ≤ here.iovLen

/-- An iterator over segments, with its offset in the first one and enough room for its count. -/
structure IovIter.Valid (i : IovIter) : Prop where
  isKvec : i.type = .kvec
  inside : InsideFirst i.kvec i.iovOffset
  room : i.count.toNat ≤ (remaining i.kvec i.iovOffset).length

/-- What is left of the first segment, and then the others. -/
theorem remaining_cons {here : Kvec} {rest : List Kvec} {skip : UInt64}
    (inside : skip ≤ here.iovLen) : remaining (here :: rest) skip =
      addresses (here.iovBase + skip) (here.iovLen - skip).toNat ++ rest.flatMap Kvec.targets := by
  have below := le_iff_toNat_le.mp inside
  have whole : here.iovLen.toNat = skip.toNat + (here.iovLen - skip).toNat := by
    rw [toNat_sub_of_toNat_le below]
    omega
  have first : here.targets = addresses here.iovBase skip.toNat ++
      addresses (here.iovBase + skip) (here.iovLen - skip).toNat := by
    rw [Kvec.targets, whole, addresses_add, UInt64.ofNat_toNat]
  rw [remaining, flatMap_cons, first, append_assoc]
  exact drop_left' (length_addresses ..)

/-- What the loop over segments leaves: the bytes are written, and the segments that it returns
are what remains of the targets. -/
structure Advanced (targets : List UInt64) (bytes : List UInt8) (memory : Memory)
    (result : Memory × UInt64 × List Kvec) : Prop where
  written : result.1 = scatter targets bytes memory
  left : remaining result.2.2 result.2.1 = targets.drop bytes.length
  inside : InsideFirst result.2.2 result.2.1

/-- A range that takes its bytes, and what comes after it. -/
theorem Advanced.through {base : UInt64} {size : Nat} {tail : List UInt64} {bytes : List UInt8}
    {memory : Memory} {result : Memory × UInt64 × List Kvec} (used : size ≤ bytes.length)
    (next : Advanced tail (bytes.drop size) (store (bytes.take size) base memory) result) :
    Advanced (addresses base size ++ tail) bytes memory result := by
  refine ⟨?_, ?_, next.inside⟩
  · rw [next.written, scatter_addresses, min_eq_right used]
  · have usedUp : (addresses base size).drop bytes.length = [] :=
      drop_eq_nil_of_le ((length_addresses base size).trans_le used)
    rw [next.left, length_drop, drop_append, length_addresses, usedUp, nil_append]

/-- A range in which the bytes end. -/
theorem Advanced.ends {here : Kvec} {rest : List Kvec} {skip : UInt64} {bytes : List UInt8}
    {memory : Memory} (inside : skip ≤ here.iovLen)
    (fits : bytes.length ≤ (here.iovLen - skip).toNat) :
    Advanced (remaining (here :: rest) skip) bytes memory
      (store bytes (here.iovBase + skip) memory, skip + UInt64.ofNat bytes.length,
        here :: rest) := by
  have below := le_iff_toNat_le.mp inside
  have bound := here.iovLen.toNat_lt
  rw [toNat_sub_of_toNat_le below] at fits
  have small : (ofNat bytes.length).toNat = bytes.length :=
    (toNat_ofNat' ..).trans (mod_eq_of_lt (by omega))
  have sum : (skip + ofNat bytes.length).toNat = skip.toNat + bytes.length := by
    rw [toNat_add_of_lt (by omega), small]
  refine ⟨?_, ?_, ?_⟩
  · rw [remaining_cons inside, scatter_addresses, toNat_sub_of_toNat_le below,
      min_eq_left fits, drop_length, take_length, scatter_nil]
  · rw [remaining, remaining, drop_drop, sum]
  · rintro _ ⟨⟩
    refine le_iff_toNat_le.mpr ?_
    rw [sum]
    omega

/-- The loop, entered with bytes to write. -/
theorem iterateKvecLoop_advanced {rest : List Kvec} {here : Kvec} {bytes : List UInt8}
    {skip : UInt64} {memory : Memory} (more : bytes ≠ [])
    (room : bytes.length ≤ (rest.flatMap Kvec.targets).length) :
    ∃ result, iterateKvecLoop rest here bytes skip memory = .ok result ∧
      Advanced (rest.flatMap Kvec.targets) bytes memory result := by
  induction rest generalizing here bytes skip memory with
  | nil => exact absurd (length_eq_zero_iff.mp (le_zero.mp room)) more
  | cons next rest ih =>
    have step : iterateKvecLoop (next :: rest) here bytes skip memory =
        if min bytes.length next.iovLen.toNat = 0 then iterateKvecLoop rest next bytes skip memory
        else iterateKvecLoop rest next (bytes.drop (min bytes.length next.iovLen.toNat))
          (ofNat (min bytes.length next.iovLen.toNat))
          (store (bytes.take (min bytes.length next.iovLen.toNat)) next.iovBase memory) := by
      cases bytes with
      | nil => exact absurd rfl more
      | cons byte bytes => rw [iterateKvecLoop]
    have positive := length_pos_iff.mpr more
    rw [flatMap_cons, length_append, Kvec.targets, length_addresses] at room
    rw [step]
    rcases lt_or_ge next.iovLen.toNat bytes.length with used | fits
    · -- the segment is used up, and there are bytes left
      have left : bytes.drop next.iovLen.toNat ≠ [] := by
        rw [ne_eq, drop_eq_nil_iff]
        omega
      have leftRoom :
          (bytes.drop next.iovLen.toNat).length ≤ (rest.flatMap Kvec.targets).length := by
        rw [length_drop]
        omega
      rw [min_eq_right used.le]
      split
      · next empty =>
        obtain ⟨result, ran, advanced⟩ := @ih next _ skip memory more (by omega)
        refine ⟨result, ran, Advanced.through used.le ?_⟩
        rw [empty]
        exact advanced
      · obtain ⟨result, ran, advanced⟩ := @ih next _ (ofNat next.iovLen.toNat)
          (store (bytes.take next.iovLen.toNat) next.iovBase memory) left leftRoom
        exact ⟨result, ran, advanced.through used.le⟩
    · -- the bytes end in the segment
      rw [min_eq_left fits, if_neg (ne_of_gt positive), drop_length, take_length]
      have ends := @Advanced.ends next rest 0 bytes memory (zero_le _) (by
        rw [sub_zero]
        exact fits)
      rw [add_zero, zero_add] at ends
      refine ⟨_, ?_, ends⟩
      cases rest <;> rfl

/-- `iterate_kvec` writes the bytes over the segments. -/
theorem iterateKvec_advanced {kvec : List Kvec} {bytes : List UInt8} {skip : UInt64}
    {memory : Memory} (inside : InsideFirst kvec skip) (filled : kvec ≠ [])
    (room : bytes.length ≤ (remaining kvec skip).length) :
    ∃ result, iterateKvec kvec bytes skip memory = .ok result ∧
      Advanced (remaining kvec skip) bytes memory result := by
  cases kvec with
  | nil => exact absurd rfl filled
  | cons here rest =>
    have insideHere : skip ≤ here.iovLen := inside here rfl
    rw [iterateKvec]
    rcases lt_or_ge (here.iovLen - skip).toNat bytes.length with used | fits
    · rw [remaining_cons insideHere] at room ⊢
      rw [length_append, length_addresses] at room
      have left : bytes.drop (here.iovLen - skip).toNat ≠ [] := by
        rw [ne_eq, drop_eq_nil_iff]
        omega
      have leftRoom : (bytes.drop (here.iovLen - skip).toNat).length ≤
          (rest.flatMap Kvec.targets).length := by
        rw [length_drop]
        omega
      rw [min_eq_right used.le]
      split
      · next empty =>
        rw [empty] at left leftRoom ⊢
        obtain ⟨result, ran, advanced⟩ := @iterateKvecLoop_advanced rest here bytes skip memory left
          leftRoom
        exact ⟨result, ran, Advanced.through (zero_le _) advanced⟩
      · obtain ⟨result, ran, advanced⟩ := @iterateKvecLoop_advanced rest here _
          (skip + ofNat (here.iovLen - skip).toNat)
          (store (bytes.take (here.iovLen - skip).toNat) (here.iovBase + skip) memory) left leftRoom
        exact ⟨result, ran, advanced.through used.le⟩
    · rw [min_eq_left fits, drop_length, take_length]
      have ends := @Advanced.ends here rest skip bytes memory insideHere fits
      split
      · next empty =>
        have none := length_eq_zero_iff.mp empty
        rw [none] at ends ⊢
        refine ⟨_, ?_, (add_zero skip ▸ ends)⟩
        cases rest <;> rfl
      · refine ⟨_, ?_, ends⟩
        cases rest <;> rfl

/-- Leaving a segment that is used up does not change what remains. -/
theorem nextSegment_spec {kvec : List Kvec} {skip : UInt64} (inside : InsideFirst kvec skip) :
    remaining (nextSegment skip kvec).2 (nextSegment skip kvec).1 = remaining kvec skip ∧
      InsideFirst (nextSegment skip kvec).2 (nextSegment skip kvec).1 := by
  cases kvec with
  | nil => exact ⟨rfl, inside⟩
  | cons here rest =>
    rw [nextSegment]
    split
    · next ended =>
      refine ⟨?_, fun next _ => le_iff_toNat_le.mpr (zero_le _)⟩
      rw [remaining_cons (inside here rfl), ended, sub_self]
      rfl
    · exact ⟨rfl, inside⟩

/-- `_copy_to_iter` writes what the iterator takes of the bytes, and the iterator is left with the
rest of its targets. -/
theorem IovIter.Valid.copyToIter {i : IovIter} (valid : i.Valid) (source : List UInt8)
    (memory : Memory) : ∃ after,
      copyToIter source i memory = .ok (UInt64.ofNat (min source.length i.count.toNat), after,
        scatter i.targets source memory) ∧
      after.Valid ∧ after.targets = i.targets.drop source.length ∧
      after.count.toNat = i.count.toNat - source.length := by
  obtain ⟨isKvec, inside, room⟩ := id valid
  have small := i.count.toNat_lt
  have isLength : (source.take i.count.toNat).length = min i.count.toNat source.length :=
    length_take
  rw [Xlinux.copyToIter]
  rw [isKvec, if_neg (by decide), if_neg (by decide)]
  dsimp only
  split
  · next none =>
    have noTargets : i.targets = [] := by
      rw [targets, none]
      rfl
    refine ⟨i, ?_, valid, ?_, ?_⟩
    · rw [noTargets, none, min_comm]
      rfl
    · rw [noTargets, drop_nil]
    · rw [none]
      exact (Nat.zero_sub _).symm
  · next some =>
    have positive : 0 < i.count.toNat := pos_of_ne_zero fun zero => some (UInt64.toNat_inj.mp zero)
    have filled : i.kvec ≠ [] := by
      intro empty
      rw [empty, remaining, flatMap_nil, drop_nil] at room
      exact absurd room (not_le.mpr positive)
    obtain ⟨⟨_, skip, kvec⟩, ran, advanced⟩ :=
      @iterateKvec_advanced i.kvec (source.take i.count.toNat) i.iovOffset memory inside filled (by
        omega)
    obtain ⟨isWritten, left, insideLeft⟩ := advanced
    obtain ⟨sameLeft, insideNext⟩ := nextSegment_spec insideLeft
    have taken : (ofNat (source.take i.count.toNat).length).toNat =
        min i.count.toNat source.length := by
      rw [isLength]
      exact (toNat_ofNat' ..).trans (mod_eq_of_lt (by omega))
    have newCount : (i.count - ofNat (source.take i.count.toNat).length).toNat =
        i.count.toNat - source.length := by
      rw [toNat_sub_of_toNat_le (by omega)]
      omega
    rw [ran, Kernel.ok_bind]
    refine ⟨⟨.kvec, (nextSegment skip kvec).1,
      i.count - ofNat (source.take i.count.toNat).length, (nextSegment skip kvec).2⟩, ?_,
      ⟨rfl, insideNext, ?_⟩, ?_, newCount⟩
    · rw [isWritten, scatter_take_bytes, isLength, min_comm]
      rfl
    · rw [newCount, sameLeft, left, length_drop]
      omega
    · rw [IovIter.targets, IovIter.targets]
      rw [newCount, sameLeft, left, isLength, drop_take]
      rcases le_total source.length i.count.toNat with short | long
      · rw [min_eq_right short]
      · rw [Nat.sub_eq_zero_of_le long, take_zero, take_zero]

end Xlinux
