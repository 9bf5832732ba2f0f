/-
This file models the descriptor table of a process: `__alloc_fd` of `fs/file.c`
and `put_unused_fd` of `fs/open.c`. The table has one bit for every descriptor in
use, one bit for every word of those bits that is full, and a hint below which
all descriptors are in use.
-/

import Xlinux.Fd.Bits
import Xlinux.Lib.Run

namespace Xlinux

open Bitmap Kernel UInt32

/-! ### The code -/

/-- The fields of `struct fdtable` that are read here. -/
structure FdTable where
  maxFds : UInt32
  closeOnExec : Array UInt64
  openFds : Array UInt64
  fullFdsBits : Array UInt64
  deriving DecidableEq, Repr

/-- `struct files_struct` with the table its `fdt` points to. -/
structure FilesStruct where
  fdt : FdTable
  nextFd : UInt32
  deriving DecidableEq, Repr

/-- `EMFILE`. -/
def emfile : Int := 24

/-- `O_CLOEXEC`. -/
def oCloexec : UInt32 := 0x80000

/-- An `unsigned int` that is passed as an `int`. -/
def fdToCInt (fd : UInt32) : Int := toCInt fd.toUInt64

/-- `find_next_fd`. -/
def findNextFd (fdt : FdTable) (start : UInt32) : Kernel UInt32 := do
  let maxfd := fdt.maxFds
  let maxbit := maxfd / 64
  let bitbit := start / 64
  let word ← findNextZeroBit fdt.fullFdsBits maxbit.toUInt64 bitbit.toUInt64
  let bitbit := (word * 64).toUInt32
  if bitbit > maxfd then return maxfd
  let start := if bitbit > start then bitbit else start
  let fd ← findNextZeroBit fdt.openFds maxfd.toUInt64 start.toUInt64
  return fd.toUInt32

/-- `expand_files`. -/
def expandFiles (files : FilesStruct) (nr : UInt32) : Kernel Int :=
  if nr < files.fdt.maxFds then .ok 0
  else .error (.panic "expand_files: need expand files table!")

/-- `__set_close_on_exec`. -/
def setCloseOnExec (fd : UInt32) (fdt : FdTable) : Kernel FdTable := do
  return { fdt with closeOnExec := ← setBit (fdToCInt fd) fdt.closeOnExec }

/-- `__clear_close_on_exec`. -/
def clearCloseOnExec (fd : UInt32) (fdt : FdTable) : Kernel FdTable := do
  if ← testBit (fdToCInt fd) fdt.closeOnExec then
    return { fdt with closeOnExec := ← clearBit (fdToCInt fd) fdt.closeOnExec }
  else return fdt

/-- `__set_open_fd`. -/
def setOpenFd (fd : UInt32) (fdt : FdTable) : Kernel FdTable := do
  let openFds ← setBit (fdToCInt fd) fdt.openFds
  let fdt := { fdt with openFds }
  let fd := fd / 64
  let word ← bitmapWord fdt.openFds fd.toNat
  if ~~~word = 0 then return { fdt with fullFdsBits := ← setBit (fdToCInt fd) fdt.fullFdsBits }
  else return fdt

/-- Where `__alloc_fd` begins to look. -/
def firstFd (files : FilesStruct) (start : UInt32) : UInt32 :=
  if start < files.nextFd then files.nextFd else start

/-- The search of `__alloc_fd`. -/
def searchFd (files : FilesStruct) (start : UInt32) : Kernel UInt32 :=
  if firstFd files start < files.fdt.maxFds then findNextFd files.fdt (firstFd files start)
  else .ok (firstFd files start)

/-- What `__alloc_fd` does with the flags. -/
def markExec (fd flags : UInt32) (fdt : FdTable) : Kernel FdTable :=
  if flags &&& oCloexec ≠ 0 then setCloseOnExec fd fdt else clearCloseOnExec fd fdt

/-- `__alloc_fd`. -/
def allocFd (files : FilesStruct) (start stop flags : UInt32) : Kernel (Int × FilesStruct) := do
  let fd ← searchFd files start
  if fd ≥ stop then return (-emfile, files)
  let error ← expandFiles files fd
  if error < 0 then return (error, files)
  let nextFd := if start ≤ files.nextFd then fd + 1 else files.nextFd
  let fdt ← setOpenFd fd files.fdt
  let fdt ← markExec fd flags fdt
  return (fdToCInt fd, ⟨fdt, nextFd⟩)

/-- `__clear_open_fd`. -/
def clearOpenFd (fd : UInt32) (fdt : FdTable) : Kernel FdTable := do
  let openFds ← clearBit (fdToCInt fd) fdt.openFds
  let fullFdsBits ← clearBit (fdToCInt (fd / 64)) fdt.fullFdsBits
  return { fdt with openFds, fullFdsBits }

/-- `put_unused_fd`, with the files of the current process. -/
def putUnusedFd (files : FilesStruct) (fd : UInt32) : Kernel FilesStruct := do
  let fdt ← clearOpenFd fd files.fdt
  return ⟨fdt, if fd < files.nextFd then fd else files.nextFd⟩

/-! ### The invariant -/

/-- The bitmaps have a bit for every descriptor, and the full bits are those of the full words. -/
structure FdTable.Consistent (fdt : FdTable) : Prop where
  few : fdt.maxFds.toNat ≤ 2 ^ 31
  room : fdt.maxFds.toNat ≤ 64 * fdt.openFds.size
  roomExec : fdt.maxFds.toNat ≤ 64 * fdt.closeOnExec.size
  roomFull : fdt.openFds.size ≤ 64 * fdt.fullFdsBits.size
  inside : ∀ fd, bit fdt.openFds fd = true → fd < fdt.maxFds.toNat
  full : ∀ block, bit fdt.fullFdsBits block = true ↔ ~~~(word fdt.openFds block) = 0

/-- Every descriptor below the hint is in use. -/
structure FilesStruct.Consistent (files : FilesStruct) : Prop where
  table : files.fdt.Consistent
  hint : files.nextFd.toNat ≤ files.fdt.maxFds.toNat
  below : ∀ fd < files.nextFd.toNat, bit files.fdt.openFds fd = true

variable {fdt : FdTable} {files : FilesStruct} {fd : UInt32}

theorem fdToCInt_eq (small : fd.toNat < 2 ^ 31) : fdToCInt fd = fd.toNat := by
  have low : fd.toUInt64.toNat % 2 ^ 32 = fd.toNat := by
    rw [toNat_toUInt64]
    omega
  rw [fdToCInt, toCInt_eq low, if_pos small]

theorem toNat_ite_gt (a b : UInt32) : (if a > b then a else b).toNat = max a.toNat b.toNat := by
  split_ifs with more
  · exact (max_eq_left (lt_iff_toNat_lt.mp more).le).symm
  · exact (max_eq_right (le_iff_toNat_le.mp (UInt32.not_lt.mp more))).symm

theorem toNat_div_64 (fd : UInt32) : (fd / 64).toNat = fd.toNat / 64 :=
  UInt32.toNat_div fd 64

theorem fdToCInt_div (fd : UInt32) : fdToCInt (fd / 64) = ((fd.toNat / 64 : Nat) : Int) := by
  have bound := fd.toNat_lt
  rw [fdToCInt_eq (by rw [toNat_div_64]; omega), toNat_div_64]

namespace FdTable.Consistent

variable (consistent : fdt.Consistent)

include consistent

theorem full_iff (block : Nat) :
    bit fdt.fullFdsBits block = true ↔ ∀ n, n / 64 = block → bit fdt.openFds n = true :=
  (consistent.full block).trans (ones_iff block)

/-! ### The search -/

/-- `find_next_fd` finds the least free descriptor: the words it skips are full. -/
theorem findNextFd (start : UInt32) :
    ∃ found, Xlinux.findNextFd fdt start = .ok found ∧
      Next (fun n => !bit fdt.openFds n) fdt.maxFds.toNat start.toNat found.toNat := by
  have few := consistent.few
  have room := consistent.room
  have roomFull := consistent.roomFull
  obtain ⟨skip, ranSkip, skipped⟩ :=
    @findNextZeroBit_next fdt.fullFdsBits (fdt.maxFds / 64).toUInt64
    (start / 64).toUInt64 (by rw [toNat_toUInt64, toNat_div_64]; omega)
    (by rw [toNat_toUInt64, toNat_div_64]; omega)
  rw [toNat_toUInt64, toNat_toUInt64, toNat_div_64] at skipped
  have bounded := skipped.bounded
  have bitbit : (skip * 64).toUInt32.toNat = 64 * skip.toNat := by
    rw [UInt64.toNat_toUInt32, UInt64.toNat_mul, show (64 : UInt64).toNat = 64 from rfl]
    omega
  have later : (if (skip * 64).toUInt32 > start then (skip * 64).toUInt32 else start).toNat =
      max (64 * skip.toNat) start.toNat := by
    rw [toNat_ite_gt, bitbit]
  have notBeyond : ¬(skip * 64).toUInt32 > fdt.maxFds := by
    refine UInt32.not_lt.mpr (le_iff_toNat_le.mpr ?_)
    omega
  obtain ⟨found, ranFound, next⟩ := @findNextZeroBit_next fdt.openFds fdt.maxFds.toUInt64
    (if (skip * 64).toUInt32 > start then (skip * 64).toUInt32 else start).toUInt64
    (by rw [toNat_toUInt64]; exact room) (by rw [toNat_toUInt64]; omega)
  rw [toNat_toUInt64, toNat_toUInt64, later] at next
  have within := next.bounded
  have short : found.toUInt32.toNat = found.toNat := by
    rw [UInt64.toNat_toUInt32]
    omega
  refine ⟨found.toUInt32, ?_, ?_⟩
  · rw [Xlinux.findNextFd]
    simp only [ranSkip, ok_bind, if_neg notBeyond, ranFound]
    rfl
  · rw [short]
    refine next.skip (le_max_right _ _) fun n above below => ?_
    have set := skipped.before (n / 64) (Nat.div_le_div_right above) (by omega)
    rw [Bool.not_eq_false'] at set ⊢
    exact (consistent.full_iff _).mp set n rfl

/-! ### Marking a descriptor -/

theorem block_lt (inside : fd < fdt.maxFds) :
    fd.toNat < 2 ^ 31 ∧ fd.toNat / 64 < fdt.openFds.size ∧ fd.toNat / 64 < fdt.closeOnExec.size ∧
      fd.toNat / 64 / 64 < fdt.fullFdsBits.size := by
  have low := lt_iff_toNat_lt.mp inside
  have few := consistent.few
  have room := consistent.room
  have roomExec := consistent.roomExec
  have roomFull := consistent.roomFull
  omega

theorem setOpenFd (inside : fd < fdt.maxFds) :
    ∃ after, Xlinux.setOpenFd fd fdt = .ok after ∧ after.Consistent ∧ after.maxFds = fdt.maxFds ∧
      ∀ n, bit after.openFds n = (decide (n = fd.toNat) || bit fdt.openFds n) := by
  obtain ⟨small, place, _, placeFull⟩ := consistent.block_lt inside
  obtain ⟨openFds, ranOpen, sizeOpen, bits, -⟩ := setBit_ok place
  have grows : ∀ n, bit fdt.openFds n = true → bit openFds n = true := fun n set => by
    rw [bits, set, Bool.or_true]
  have inRange : ∀ n, bit openFds n = true → n < fdt.maxFds.toNat := fun n set => by
    rw [bits, Bool.or_eq_true, decide_eq_true_eq] at set
    rcases set with rfl | set
    · exact lt_iff_toNat_lt.mp inside
    · exact consistent.inside n set
  -- Only the word of the descriptor can have become full.
  have others : ∀ block, block ≠ fd.toNat / 64 →
      (bit fdt.fullFdsBits block = true ↔ ~~~(word openFds block) = 0) := fun block other => by
    rw [consistent.full_iff, ones_iff]
    refine forall_congr' fun n => forall_congr' fun same => ?_
    have apart : n ≠ fd.toNat := fun eq => other (by rw [← same, eq])
    rw [bits, decide_eq_false apart, Bool.false_or]
  have readBack : bitmapWord openFds (fd / 64).toNat = .ok (word openFds (fd.toNat / 64)) := by
    exact bitmapWord_ok (sizeOpen ▸ place)
  rw [Xlinux.setOpenFd, fdToCInt_eq small, ranOpen, ok_bind]
  dsimp only
  rw [readBack, ok_bind, fdToCInt_div]
  split
  case isTrue ones =>
    obtain ⟨fullFdsBits, ranFull, sizeFull, bitsFull, -⟩ := setBit_ok placeFull
    rw [ranFull]
    refine ⟨_, rfl,
      ⟨consistent.few, ?_, consistent.roomExec, ?_, inRange, fun block => ?_⟩, rfl, bits⟩
    · exact sizeOpen ▸ consistent.room
    · exact sizeOpen ▸ sizeFull ▸ consistent.roomFull
    · rw [bitsFull]
      by_cases same : block = fd.toNat / 64
      · subst same
        simp only [decide_true, Bool.true_or, ones]
      · rw [decide_eq_false same]
        exact others block same
  case isFalse notOnes =>
    refine ⟨_, rfl,
      ⟨consistent.few, ?_, consistent.roomExec, ?_, inRange, fun block => ?_⟩, rfl, bits⟩
    · exact sizeOpen ▸ consistent.room
    · exact sizeOpen ▸ consistent.roomFull
    · by_cases same : block = fd.toNat / 64
      · subst same
        refine iff_of_false (fun set => notOnes ?_) notOnes
        rw [consistent.full_iff] at set
        exact (ones_iff _).mpr fun n block => grows n (set n block)
      · exact others block same

theorem clearOpenFd (inside : fd < fdt.maxFds) :
    ∃ after, Xlinux.clearOpenFd fd fdt = .ok after ∧ after.Consistent ∧ after.maxFds = fdt.maxFds ∧
      ∀ n, bit after.openFds n = (!decide (n = fd.toNat) && bit fdt.openFds n) := by
  obtain ⟨small, place, _, placeFull⟩ := consistent.block_lt inside
  obtain ⟨openFds, ranOpen, sizeOpen, bits⟩ := clearBit_ok place
  obtain ⟨_, ranFull, sizeFull, bitsFull⟩ := clearBit_ok placeFull
  rw [Xlinux.clearOpenFd, fdToCInt_eq small, ranOpen, fdToCInt_div, ranFull]
  refine ⟨_, rfl,
    ⟨consistent.few, ?_, consistent.roomExec, ?_, fun n set => ?_, fun block => ?_⟩, rfl, bits⟩
  · exact sizeOpen ▸ consistent.room
  · exact sizeOpen ▸ sizeFull ▸ consistent.roomFull
  · rw [bits, Bool.and_eq_true] at set
    exact consistent.inside n set.2
  · rw [bitsFull, ones_iff]
    by_cases same : block = fd.toNat / 64
    · subst same
      refine iff_of_false (by simp) fun all => ?_
      have self := all fd.toNat rfl
      rw [bits] at self
      simp at self
    · rw [decide_eq_false same, Bool.not_false, Bool.true_and, consistent.full_iff]
      refine forall_congr' fun n => forall_congr' fun here => ?_
      have apart : n ≠ fd.toNat := fun eq => same (by rw [← here, eq])
      rw [bits, decide_eq_false apart, Bool.not_false, Bool.true_and]

/-- The bits of `close_on_exec` are not part of the invariant. -/
theorem withExec {closeOnExec : Array UInt64} (size : closeOnExec.size = fdt.closeOnExec.size) :
    ({ fdt with closeOnExec } : FdTable).Consistent where
  few := consistent.few
  room := consistent.room
  roomExec := size ▸ consistent.roomExec
  roomFull := consistent.roomFull
  inside := consistent.inside
  full := consistent.full

theorem markExec (inside : fd < fdt.maxFds) (flags : UInt32) :
    ∃ after, Xlinux.markExec fd flags fdt = .ok after ∧ after.Consistent ∧
      after.maxFds = fdt.maxFds ∧ after.openFds = fdt.openFds := by
  obtain ⟨small, _, placeExec, _⟩ := consistent.block_lt inside
  rw [Xlinux.markExec]
  split_ifs
  · obtain ⟨closeOnExec, ran, size, -⟩ := setBit_ok placeExec
    rw [setCloseOnExec, fdToCInt_eq small, ran]
    exact ⟨_, rfl, consistent.withExec size, rfl, rfl⟩
  · obtain ⟨result, tested⟩ := testBit_ok placeExec
    obtain ⟨closeOnExec, ran, size, -⟩ := clearBit_ok placeExec
    rw [clearCloseOnExec, fdToCInt_eq small, tested, ok_bind]
    cases result with
    | false => exact ⟨fdt, rfl, consistent, rfl, rfl⟩
    | true =>
      rw [ran]
      exact ⟨_, rfl, consistent.withExec size, rfl, rfl⟩

end FdTable.Consistent

/-! ### Allocating and freeing -/

/-- What `__alloc_fd` returns: no descriptor of the range is free, or the least free one, which is
in use afterwards. -/
def FdAllocated (used : Nat → Bool) (start stop : Nat) (result : Int) (after : Nat → Bool) : Prop :=
  (result = -emfile ∧ after = used ∧ ∀ fd, start ≤ fd → fd < stop → used fd = true) ∨
    ∃ fd : Nat, result = fd ∧ fd < stop ∧ IsLeast {fd | start ≤ fd ∧ used fd = false} fd ∧
      after = fun n => decide (n = fd) || used n

section Outcome

variable {after : Nat → Bool} {start stop : Nat} {result : Int}

theorem FdAllocated.failed_iff {live : List Nat}
    (allocated : FdAllocated (fun n => decide (n ∈ live)) start stop result after) :
    result = -emfile ↔ ∀ fd, start ≤ fd → fd < stop → fd ∈ live := by
  rcases allocated with ⟨failed, -, none⟩ | ⟨fd, _, low, least, -⟩
  · exact iff_of_true failed fun fd above below => of_decide_eq_true (none fd above below)
  · refine iff_of_false (fun failed => ?_) fun all => ?_
    · rw [emfile] at failed
      omega
    · exact of_decide_eq_false least.1.2 (all fd least.1.1 low)

theorem FdAllocated.returned {live : List Nat}
    (allocated : FdAllocated (fun n => decide (n ∈ live)) start stop result after)
    (succeeded : result ≠ -emfile) :
    ∃ fd : Nat, result = fd ∧ fd < stop ∧ IsLeast {fd | start ≤ fd ∧ fd ∉ live} fd ∧
      ∀ n, after n = true ↔ n = fd ∨ n ∈ live := by
  rcases allocated with ⟨failed, -, -⟩ | ⟨fd, value, low, least, marks⟩
  · exact absurd failed succeeded
  · refine ⟨fd, value, low, ⟨⟨least.1.1, of_decide_eq_false least.1.2⟩, fun n free => ?_⟩,
      fun n => ?_⟩
    · exact least.2 ⟨free.1, decide_eq_false free.2⟩
    · rw [marks, Bool.or_eq_true, decide_eq_true_eq, decide_eq_true_eq]

end Outcome

theorem toNat_firstFd (files : FilesStruct) (start : UInt32) :
    (firstFd files start).toNat = max start.toNat files.nextFd.toNat :=
  (toNat_ite_gt files.nextFd start).trans (max_comm ..)

namespace FilesStruct.Consistent

variable (consistent : files.Consistent)

include consistent

/-- The search begins at the hint when that is behind the start, and passes no free descriptor. -/
theorem searchFd (start : UInt32) :
    ∃ found, Xlinux.searchFd files start = .ok found ∧
      max start.toNat files.nextFd.toNat ≤ found.toNat ∧
      (∀ n, start.toNat ≤ n → n < found.toNat → n < files.fdt.maxFds.toNat →
        bit files.fdt.openFds n = true) ∧
      (found < files.fdt.maxFds → bit files.fdt.openFds found.toNat = false) := by
  have first := toNat_firstFd files start
  rw [Xlinux.searchFd]
  split
  case isTrue inside =>
    have low := lt_iff_toNat_lt.mp inside
    obtain ⟨found, ran, next⟩ := consistent.table.findNextFd (firstFd files start)
    have reached := next.reached
    refine ⟨found, ran, ?_, fun n above below _ => ?_, fun here => ?_⟩
    · omega
    · by_cases hinted : n < files.nextFd.toNat
      · exact consistent.below n hinted
      · have set := next.before n (by omega) below
        rwa [Bool.not_eq_false'] at set
    · have free := (reached (lt_iff_toNat_lt.mp here)).2
      rwa [Bool.not_eq_true'] at free
  case isFalse beyond =>
    refine ⟨_, rfl, first.ge, fun n above below inside => ?_, beyond.elim⟩
    refine consistent.below n ?_
    omega

/-- What the search finds in the table is marked as in use. -/
theorem allocFd_found {start stop found : UInt32}
    (searched : Xlinux.searchFd files start = .ok found) (order : found < stop)
    (inside : found < files.fdt.maxFds)
    (passed : ∀ n, start.toNat ≤ n → n < found.toNat → bit files.fdt.openFds n = true)
    (flags : UInt32) :
    ∃ after, Xlinux.allocFd files start stop flags = .ok (found.toNat, after) ∧ after.Consistent ∧
      after.fdt.maxFds = files.fdt.maxFds ∧
      bit after.fdt.openFds = fun n => decide (n = found.toNat) || bit files.fdt.openFds n := by
  have few := consistent.table.few
  have low := lt_iff_toNat_lt.mp inside
  obtain ⟨marked, ranMarked, tableMarked, maxMarked, bits⟩ := consistent.table.setOpenFd inside
  obtain ⟨final, ranFinal, tableFinal, maxFinal, openFinal⟩ :=
    tableMarked.markExec (maxMarked ▸ inside) flags
  have used : bit final.openFds = fun n => decide (n = found.toNat) || bit files.fdt.openFds n := by
    funext n
    rw [openFinal, bits]
  have same : final.maxFds = files.fdt.maxFds := maxFinal.trans maxMarked
  have next : (found + 1).toNat = found.toNat + 1 := by
    rw [UInt32.toNat_add, UInt32.toNat_one]
    omega
  have expanded : expandFiles files found = .ok 0 := if_pos inside
  rw [allocFd, searched, ok_bind, if_neg (UInt32.not_le.mpr order), expanded, ok_bind]
  rw [ranMarked, ok_bind, ranFinal, fdToCInt_eq (by omega)]
  refine ⟨_, rfl, ⟨tableFinal, ?_, fun n lower => ?_⟩, same, used⟩
  · rw [same]
    split_ifs
    · rw [next]; omega
    · exact consistent.hint
  · rw [used, Bool.or_eq_true, decide_eq_true_eq]
    by_cases here : n = found.toNat
    · exact .inl here
    · right
      by_cases hinted : n < files.nextFd.toNat
      · exact consistent.below n hinted
      · split_ifs at lower with early
        · have start_le := le_iff_toNat_le.mp early
          rw [next] at lower
          exact passed n (by omega) (by omega)
        · exact absurd lower hinted

theorem allocFd (start : UInt32) {stop : UInt32} (within : stop ≤ files.fdt.maxFds) (flags : UInt32)
    :
    ∃ result after, Xlinux.allocFd files start stop flags = .ok (result, after) ∧ after.Consistent ∧
      after.fdt.maxFds = files.fdt.maxFds ∧
      FdAllocated (bit files.fdt.openFds) start.toNat stop.toNat result
        (bit after.fdt.openFds) := by
  have bound := le_iff_toNat_le.mp within
  obtain ⟨found, searched, _, passed, free⟩ := consistent.searchFd start
  by_cases beyond : found ≥ stop
  · have order := le_iff_toNat_le.mp beyond
    rw [Xlinux.allocFd, searched, ok_bind, if_pos beyond]
    exact ⟨-emfile, files, rfl, consistent, rfl,
      .inl ⟨rfl, rfl, fun n low high => passed n low (high.trans_le order) (high.trans_le bound)⟩⟩
  · have order := UInt32.not_le.mp beyond
    have inside : found < files.fdt.maxFds := UInt32.lt_of_lt_of_le order within
    have low := lt_iff_toNat_lt.mp inside
    obtain ⟨after, ran, good, same, used⟩ := consistent.allocFd_found searched order inside
      (fun n start_le lower => passed n start_le lower (lower.trans low)) flags
    refine ⟨_, after, ran, good, same, .inr ⟨found.toNat, rfl, lt_iff_toNat_lt.mp order,
      ⟨⟨by omega, free inside⟩, fun n least => ?_⟩, used⟩⟩
    by_contra less
    have set := passed n least.1 (Nat.lt_of_not_le less) (by omega)
    rw [least.2] at set
    exact absurd set (by decide)

/-- Whatever the end is: no descriptor, or a free one of the table, which is in use afterwards. -/
theorem of_allocFd {start stop flags : UInt32} {pair : Int × FilesStruct}
    (ran : Xlinux.allocFd files start stop flags = .ok pair) :
    pair = (-emfile, files) ∨ ∃ fd : Nat, pair.1 = fd ∧ fd < files.fdt.maxFds.toNat ∧
      bit files.fdt.openFds fd = false ∧ pair.2.Consistent ∧
      pair.2.fdt.maxFds = files.fdt.maxFds ∧
      bit pair.2.fdt.openFds = fun n => decide (n = fd) || bit files.fdt.openFds n := by
  obtain ⟨found, searched, -, passed, free⟩ := consistent.searchFd start
  by_cases beyond : found ≥ stop
  · rw [Xlinux.allocFd, searched, ok_bind, if_pos beyond] at ran
    exact .inl (Except.ok.inj ran).symm
  by_cases inside : found < files.fdt.maxFds
  · have low := lt_iff_toNat_lt.mp inside
    obtain ⟨_, called, good, same, used⟩ := consistent.allocFd_found searched
      (UInt32.not_le.mp beyond) inside
      (fun n start_le lower => passed n start_le lower (lower.trans low)) flags
    rw [called] at ran
    cases ran
    exact .inr ⟨found.toNat, rfl, low, free inside, good, same, used⟩
  · rw [Xlinux.allocFd, searched, ok_bind, if_neg beyond, expandFiles, if_neg inside] at ran
    cases ran

theorem putUnusedFd (inside : fd < files.fdt.maxFds) :
    ∃ after, Xlinux.putUnusedFd files fd = .ok after ∧ after.Consistent ∧
      after.fdt.maxFds = files.fdt.maxFds ∧
      ∀ n, bit after.fdt.openFds n = (!decide (n = fd.toNat) && bit files.fdt.openFds n) := by
  obtain ⟨table, ran, consistentTable, same, bits⟩ := consistent.table.clearOpenFd inside
  have low := lt_iff_toNat_lt.mp inside
  have kept : ∀ n < files.nextFd.toNat, n ≠ fd.toNat → bit table.openFds n = true :=
    fun n lower apart => by
    rw [bits, decide_eq_false apart, consistent.below n lower]
    rfl
  rw [Xlinux.putUnusedFd, ran]
  refine ⟨_, rfl, ⟨consistentTable, ?_, fun n lower => ?_⟩, same, bits⟩
  · rw [same]
    split_ifs
    · exact low.le
    · exact consistent.hint
  · dsimp only at lower
    split_ifs at lower with less
    · exact kept n (lower.trans (lt_iff_toNat_lt.mp less)) lower.ne
    · have above := le_iff_toNat_le.mp (UInt32.not_lt.mp less)
      exact kept n lower (by omega)

end FilesStruct.Consistent

/-! ### Runs -/

/-- A call. -/
inductive FdCall
  | alloc (start stop flags : UInt32)
  | put (fd : UInt32)
  deriving DecidableEq, Repr

/-- The files with the descriptors that were returned and not put back. -/
structure FdUsers where
  files : FilesStruct
  used : List Nat
  deriving DecidableEq, Repr

/-- Make a call: an end beyond the table and a descriptor that is not open are misuse. -/
def fdCall (users : FdUsers) : FdCall → Except Halt FdUsers
  | .alloc start stop flags =>
    if stop ≤ users.files.fdt.maxFds then
      match allocFd users.files start stop flags with
      | .error fault => .error (.fault fault)
      | .ok (result, files) =>
        .ok ⟨files, if result < 0 then users.used else result.toNat :: users.used⟩
    else .error .misuse
  | .put fd =>
    if fd.toNat ∈ users.used then
      match putUnusedFd users.files fd with
      | .error fault => .error (.fault fault)
      | .ok files => .ok ⟨files, users.used.filter (· ≠ fd.toNat)⟩
    else .error .misuse

/-- A table of free descriptors; `init_files` is the one with 64 descriptors. -/
def emptyFiles (maxFds : UInt32) : FilesStruct where
  fdt.maxFds := maxFds
  fdt.closeOnExec := Array.replicate ((maxFds.toNat + 63) / 64) 0
  fdt.openFds := Array.replicate ((maxFds.toNat + 63) / 64) 0
  fdt.fullFdsBits := Array.replicate (((maxFds.toNat + 63) / 64 + 63) / 64) 0
  nextFd := 0

/-- What holds between calls. -/
structure FdUsers.Good (maxFds : UInt32) (users : FdUsers) : Prop where
  files : users.files.Consistent
  same : users.files.fdt.maxFds = maxFds
  marked : ∀ n, bit users.files.fdt.openFds n = true ↔ n ∈ users.used

variable {maxFds : UInt32} {users : FdUsers}

theorem good_emptyFiles (few : maxFds.toNat ≤ 2 ^ 31) :
    FdUsers.Good maxFds ⟨emptyFiles maxFds, []⟩ := by
  have word_eq : ∀ size block, word (Array.replicate size 0) block = 0 := fun size block => by
    rw [word, Array.getElem?_replicate]
    split <;> rfl
  have clear : ∀ size n, bit (Array.replicate size 0) n = false := fun size n => by
    rw [bit, word_eq, wordBit_zero]
  refine ⟨⟨⟨few, ?_, ?_, ?_, fun n set => ?_, fun block => ?_⟩, Nat.zero_le _,
    fun _ under => absurd under (Nat.not_lt_zero _)⟩, rfl, fun n => ?_⟩
  iterate 3
    · simp only [emptyFiles, Array.size_replicate]
      omega
  · rw [emptyFiles, clear] at set
    cases set
  · rw [emptyFiles, clear, word_eq]
    exact iff_of_false Bool.false_ne_true (by decide)
  · rw [emptyFiles, clear]
    exact iff_of_false Bool.false_ne_true List.not_mem_nil

theorem FdUsers.Good.fdCall (good : users.Good maxFds) (call : FdCall) :
    Xlinux.fdCall users call = .error .misuse ∨
      ∃ after, Xlinux.fdCall users call = .ok after ∧ after.Good maxFds := by
  cases call with
  | alloc start stop flags =>
    rw [Xlinux.fdCall]
    split_ifs with within
    · obtain ⟨_, after, ran, consistent, same, allocated⟩ := good.files.allocFd start within flags
      rw [ran]
      refine .inr ⟨_, rfl, consistent, same.trans good.same, fun n => ?_⟩
      rcases allocated with ⟨failed, used, -⟩ | ⟨fd, returned, -, -, used⟩
      · rw [failed, used]
        exact good.marked n
      · rw [returned, if_neg (by omega), used, Bool.or_eq_true, decide_eq_true_eq, good.marked,
          Int.toNat_natCast, List.mem_cons]
    · exact .inl rfl
  | put fd =>
    rw [Xlinux.fdCall]
    split_ifs with member
    · have inside : fd < users.files.fdt.maxFds :=
        lt_iff_toNat_lt.mpr (good.files.table.inside _ ((good.marked _).mpr member))
      obtain ⟨after, ran, consistent, same, bits⟩ := good.files.putUnusedFd inside
      rw [ran]
      refine .inr ⟨_, rfl, consistent, same.trans good.same, fun n => ?_⟩
      rw [bits, Bool.and_eq_true, good.marked, List.mem_filter, ← decide_not, and_comm]
    · exact .inl rfl

/-- In every run of calls, `__alloc_fd` returns the least free descriptor from its start on and
marks it, or `-EMFILE` exactly when none is free below its end, the full bits are those of the full
words and every descriptor below the hint is in use. -/
theorem fdCall_run_least (maxFds : UInt32) (few : maxFds.toNat ≤ 2 ^ 31) (calls : List FdCall) :
    (∀ users, Run.run fdCall ⟨emptyFiles maxFds, []⟩ calls = .ok users →
      (∀ fd, bit users.files.fdt.openFds fd = true ↔ fd ∈ users.used) ∧
      (∀ block, bit users.files.fdt.fullFdsBits block = true ↔
        word users.files.fdt.openFds block = ulongMax) ∧
      (∀ fd < users.files.nextFd.toNat, fd ∈ users.used) ∧
      ∀ start stop flags, stop ≤ maxFds → ∃ result files,
        allocFd users.files start stop flags = .ok (result, files) ∧
        (result = -emfile ↔ ∀ fd, start.toNat ≤ fd → fd < stop.toNat → fd ∈ users.used) ∧
        (result ≠ -emfile → ∃ fd : Nat, result = fd ∧ fd < stop.toNat ∧
          IsLeast {fd | start.toNat ≤ fd ∧ fd ∉ users.used} fd ∧
          ∀ n, bit files.fdt.openFds n = true ↔ n = fd ∨ n ∈ users.used)) ∧
      ∀ fault, Run.run fdCall ⟨emptyFiles maxFds, []⟩ calls ≠ .error (.fault fault) := by
  rcases Run.run_or_error (fun _ call good => FdUsers.Good.fdCall good call)
    (good_emptyFiles few) calls with misuse | ⟨final, ran, good⟩
  · rw [misuse]
    exact ⟨nofun, nofun⟩
  · rw [ran]
    refine ⟨?_, nofun⟩
    rintro users ⟨rfl⟩
    refine ⟨good.marked, fun block => ?_, fun fd low => ?_, fun start stop flags within => ?_⟩
    · rw [good.files.table.full]
      exact UInt64.not_eq_comm
    · exact (good.marked fd).mp (good.files.below fd low)
    · obtain ⟨result, files, called, -, -, allocated⟩ :=
        good.files.allocFd start (good.same ▸ within) flags
      have used : bit final.files.fdt.openFds = fun n => decide (n ∈ final.used) :=
        funext fun n => Bool.eq_iff_iff.mpr ((good.marked n).trans decide_eq_true_iff.symm)
      exact ⟨result, files, called, (used ▸ allocated).failed_iff, (used ▸ allocated).returned⟩

/-- The first two descriptors of the table of a process. -/
theorem fdCall_run_least_two :
    ∃ users, Run.run fdCall ⟨emptyFiles 64, []⟩ [.alloc 0 64 0, .alloc 0 64 0, .put 0] = .ok users ∧
      ∃ result files, allocFd users.files 1 64 0 = .ok (result, files) ∧ result ≠ -emfile := by
  have result := fdCall_run_least 64 (by decide) [.alloc 0 64 0, .alloc 0 64 0, .put 0]
  have ran : (Run.run fdCall ⟨emptyFiles 64, []⟩ [.alloc 0 64 0, .alloc 0 64 0, .put 0]).map
      FdUsers.used = .ok [1] := by decide +kernel
  obtain ⟨users, ran, used⟩ := exists_ok_of_map ran
  obtain ⟨-, -, -, allocates⟩ := result.1 users ran
  obtain ⟨value, files, called, failed, -⟩ := allocates 1 64 0 (by decide)
  refine ⟨users, ran, value, files, called, fun none => ?_⟩
  have two := failed.mp none 2 (by decide) (by decide)
  rw [used] at two
  exact absurd two (by decide)

/-- Putting back a descriptor from `__alloc_fd` restores those in use; the call then repeats. -/
theorem putUnusedFd_allocFd {made : FilesStruct} {start stop flags : UInt32}
    (consistent : files.Consistent) (within : stop ≤ files.fdt.maxFds)
    (ran : allocFd files start stop flags = .ok (fd.toNat, made)) :
    ∃ after again, putUnusedFd made fd = .ok after ∧
      bit after.fdt.openFds = bit files.fdt.openFds ∧
      allocFd after start stop flags = .ok (fd.toNat, again) := by
  obtain ⟨_, _, called, kept, same, outcome⟩ := consistent.allocFd start within flags
  cases ran.symm.trans called
  rcases outcome with ⟨failed, -⟩ | ⟨_, ⟨rfl⟩, low, least, used⟩
  · cases failed
  have inside : fd < made.fdt.maxFds :=
    same ▸ lt_iff_toNat_lt.mpr (low.trans_le within)
  obtain ⟨after, put, tidy, size, bits⟩ := kept.putUnusedFd inside
  have restored : bit after.fdt.openFds = bit files.fdt.openFds := by
    funext n
    rw [bits, used]
    by_cases here : n = fd.toNat <;> simp [here, least.1.2]
  obtain ⟨_, again, repeats, -, -, outcome⟩ :=
    tidy.allocFd start (size ▸ same ▸ within) flags
  rw [restored] at outcome
  rcases outcome with ⟨-, -, full⟩ | ⟨_, rfl, -, first, -⟩
  · exact absurd (full _ least.1.1 low) (by simp [least.1.2])
  · exact ⟨after, again, put, restored, least.unique first ▸ repeats⟩

/-- The descriptor 1 between two that are in use. -/
theorem putUnusedFd_allocFd_between : ∃ users made,
    Run.run fdCall ⟨emptyFiles 64, []⟩ [.alloc 0 64 0, .alloc 0 64 0, .alloc 0 64 0, .put 1] =
      .ok users ∧
    users.used = [2, 0] ∧ allocFd users.files 0 64 0 = .ok (1, made) ∧
    ∃ after again, putUnusedFd made 1 = .ok after ∧
      bit after.fdt.openFds = bit users.files.fdt.openFds ∧
      allocFd after 0 64 0 = .ok (1, again) := by
  have runs : (Run.run fdCall ⟨emptyFiles 64, []⟩
      [.alloc 0 64 0, .alloc 0 64 0, .alloc 0 64 0, .put 1]).map (fun users =>
        (users.used, (allocFd users.files 0 64 0).map Prod.fst)) = .ok ([2, 0], .ok 1) := by
    decide +kernel
  obtain ⟨users, ran, seen⟩ := exists_ok_of_map runs
  obtain ⟨used, called⟩ := Prod.mk.inj seen
  obtain ⟨⟨_, made⟩, called, rfl⟩ := exists_ok_of_map called
  have good : users.Good 64 := by
    rcases Run.run_or_error (fun _ call good => FdUsers.Good.fdCall good call)
      (good_emptyFiles (show (64 : UInt32).toNat ≤ 2 ^ 31 by decide)) _ with
      misuse | ⟨final, same, good⟩
    · cases misuse.symm.trans ran
    · cases ran.symm.trans same
      exact good
  exact ⟨users, made, ran, used, called,
    putUnusedFd_allocFd good.files (good.same ▸ UInt32.le_refl _) called⟩

end Xlinux
