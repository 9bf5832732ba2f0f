/-
This file models the reading of a file through the page cache:
`generic_file_read_iter` and `generic_file_buffered_read` of `filemap/filemap.c`,
`ondemand_readahead` of `readahead/readahead.c` and `copy_page_to_iter` of
`iov_iter/iov_iter.c`. The loop of `generic_file_buffered_read` has one turn: it
leaves when the iterator is used up, and panics otherwise. So a read succeeds
only if it stays in one page and in the file, or starts behind the end of the
file in a page that is at hand. Of the pages that are not cached only the first
one of the file can be read, and not if read-ahead marks it.
-/

import Xlinux.Cache.Contents
import Xlinux.Cache.IovIter

namespace Xlinux

open Hoare Bytes List UInt64 Nat

/-! ### The code -/

/-- `struct file_ra_state`. -/
structure FileRaState where
  start : UInt64
  size : UInt32
  asyncSize : UInt32
  raPages : UInt32
  prevPos : UInt64
  deriving DecidableEq, Repr

/-- What a read works on: `ki_pos`, the read-ahead state, the page cache of the file, the iterator
and the memory that it writes. -/
structure FileRead where
  kiPos : UInt64
  ra : FileRaState
  cache : PageCache
  iter : IovIter
  memory : Memory

/-- `get_init_ra_size`. -/
def getInitRaSize (size max : UInt64) : UInt64 :=
  -- `roundup_pow_of_two`
  let newsize := oneShl (fls64 (size - 1))
  if newsize ≤ max / 32 then newsize * 4
  else if newsize ≤ max / 4 then newsize * 2
  else max

/-- The sizes that `ondemand_readahead` computes: `ra->size` and `ra->async_size`. -/
def raWindow (raPages : UInt32) (ioPages reqSize : UInt64) : UInt32 × UInt32 :=
  let maxPages := raPages.toUInt64
  let maxPages := if reqSize > maxPages ∧ ioPages > maxPages then cmin reqSize ioPages else maxPages
  let size := (getInitRaSize reqSize maxPages).toUInt32
  (size, if size.toUInt64 > reqSize then (size.toUInt64 - reqSize).toUInt32 else size)

section Code

variable (file : RegularFile) (method : ReadaheadMethod) (ioPages : UInt64)
  (complete : UInt64 → FilePage → FilePage)

/-- `ondemand_readahead` and `ra_submit`. -/
def ondemandReadahead (ra : FileRaState) (cache : PageCache) (index reqSize : UInt64) :
    Kernel (FileRaState × PageCache) := do
  if index ≠ 0 then throw .bug
  let window := raWindow ra.raPages ioPages reqSize
  let ra := { ra with start := index, size := window.1, asyncSize := window.2 }
  let reading ← doPageCacheReadahead method file.isize cache ra.start ra.size.toUInt64
    ra.asyncSize.toUInt64
  return (ra, reading.cache)

/-- `page_cache_sync_readahead`. -/
def pageCacheSyncReadahead (ra : FileRaState) (cache : PageCache) (index reqCount : UInt64) :
    Kernel (FileRaState × PageCache) :=
  if ra.raPages = 0 then .ok (ra, cache)
  else ondemandReadahead file method ioPages ra cache index reqCount

/-- The first part of a turn of `generic_file_buffered_read`: a page that is not found is read. -/
def findOrReadPage (ra : FileRaState) (cache : PageCache) (index reqCount : UInt64) :
    Kernel (FileRaState × PageCache × UInt64) :=
  match cache.iPages index with
  | some page => .ok (ra, cache, page)
  | none => do
    let (ra, cache) ← pageCacheSyncReadahead file method ioPages ra cache index reqCount
    match cache.iPages index with
    | some page => return (ra, cache, page)
    | none => throw (.panic "no cached page!")

/-- The loop that waits for `PG_uptodate`. While it runs, the device may complete the read. -/
def waitUptodate (cache : PageCache) (page : UInt64) : Kernel PageCache :=
  if (cache.pages page).uptodate then .ok cache
  else
    let cache := cache.modifyPage page (complete page)
    if (cache.pages page).uptodate then .ok cache else throw .endless

/-- `copy_page_to_iter`. -/
def copyPageToIter (data : Nat → UInt8) (offset bytes : UInt64) (i : IovIter) (memory : Memory) :
    Kernel (UInt64 × IovIter × Memory) :=
  -- `page_copy_sane`
  if ¬(bytes ≤ bytes + offset ∧ bytes + offset ≤ pageSize) then throw (.panic "%s: !")
  else if i.type = .bvec ∨ i.type = .kvec then
    copyToIter ((List.range bytes.toNat).map fun place => data (offset.toNat + place)) i memory
  else throw (.panic "%s: !")

/-- The end of `generic_file_buffered_read`, at the label `out`. -/
def finishRead (state : FileRead) (prevIndex prevOffset index offset written : UInt64) :
    UInt64 × FileRead :=
  (written, { state with
    ra := { state.ra with prevPos := (prevIndex <<< pageShift) ||| prevOffset }
    kiPos := (index <<< pageShift) + offset })

/-- The part of a turn of `generic_file_buffered_read` that has a page which is up to date. -/
def readFromPage (state : FileRead) (page index offset prevIndex prevOffset written : UInt64) :
    Kernel (UInt64 × FileRead) := do
  let isize := file.isize.bytes
  let endIndex := (isize - 1) >>> pageShift
  if isize = 0 ∨ index > endIndex then
    return finishRead state prevIndex prevOffset index offset written
  let nr := if index = endIndex then ((isize - 1) &&& (pageSize - 1)) + 1 else pageSize
  if index = endIndex ∧ nr ≤ offset then
    return finishRead state prevIndex prevOffset index offset written
  let nr := nr - offset
  let (ret, iter, memory) ← copyPageToIter (state.cache.pages page).data offset nr state.iter
    state.memory
  let prevIndex := index
  let offset := offset + ret
  let index := index + (offset >>> pageShift)
  let offset := offset &&& (pageSize - 1)
  let written := written + ret
  if iter.count = 0 then
    return finishRead { state with iter, memory } prevIndex offset index offset written
  throw (.panic "copy page error!")

/-- `generic_file_buffered_read`. -/
def genericFileBufferedRead (state : FileRead) (written : UInt64) : Kernel (UInt64 × FileRead) := do
  let index := state.kiPos >>> pageShift
  let prevIndex := state.ra.prevPos >>> pageShift
  let prevOffset := state.ra.prevPos &&& (pageSize - 1)
  let lastIndex := (state.kiPos + state.iter.count + pageSize - 1) >>> pageShift
  let offset := state.kiPos &&& (pageSize - 1)
  let (ra, cache, page) ← findOrReadPage file method ioPages state.ra state.cache index
    (lastIndex - index)
  if (cache.pages page).readahead then throw (.panic "page readahead!")
  let cache ← waitUptodate complete cache page
  readFromPage file { state with ra, cache } page index offset prevIndex prevOffset written

/-- `generic_file_read_iter`. -/
def genericFileReadIter (state : FileRead) : Kernel (UInt64 × FileRead) :=
  if state.iter.count = 0 then .ok (0, state)
  else genericFileBufferedRead file method ioPages complete state 0

end Code

/-! ### What a read should do -/

/-- The number of bytes that a read gets: up to its count or the end of the file. -/
def FileRead.size (state : FileRead) (file : RegularFile) : Nat :=
  min state.iter.count.toNat (file.isize.bytes.toNat - state.kiPos.toNat)

/-- The read has copied the bytes of the file from the position on, and has advanced by their
number. -/
structure Copied (file : RegularFile) (state : FileRead) (returned : UInt64) (after : FileRead) :
    Prop where
  returned : returned.toNat = state.size file
  advanced : after.kiPos.toNat = state.kiPos.toNat + state.size file
  written : after.memory = scatter state.iter.targets
    ((List.range (state.size file)).map fun place => file.bytes (state.kiPos.toNat + place))
    state.memory

/-- The page of the position is cached and not marked, or it is the first one of the file and
read-ahead gets it without marking it. -/
def AtHand (file : RegularFile) (ioPages : UInt64) (ra : FileRaState) (cache : PageCache)
    (index reqCount : UInt64) : Prop :=
  match cache.iPages index with
  | some page => (cache.pages page).readahead = false
  | none => index = 0 ∧ ra.raPages ≠ 0 ∧ file.isize.bytes ≠ 0 ∧
    (raWindow ra.raPages ioPages reqCount).1 ≠ 0 ∧
    clampToFile file.isize 0 (raWindow ra.raPages ioPages reqCount).1.toUInt64 ≠
      (raWindow ra.raPages ioPages reqCount).2.toUInt64

/-- The read starts behind the end of the file, or it goes to memory segments and ends in its page
and in the file. -/
def OnePage (file : RegularFile) (state : FileRead) : Prop :=
  file.isize.bytes.toNat ≤ state.kiPos.toNat ∨
    state.iter.type = .kvec ∧ state.kiPos.toNat % 4096 + state.iter.count.toNat ≤ 4096 ∧
      state.kiPos.toNat + state.iter.count.toNat ≤ file.isize.bytes.toNat

/-! ### The part with a page -/

/-- The position that is put together again. -/
theorem pageIndex_shiftLeft_add (pos : UInt64) :
    ((pos >>> pageShift) <<< pageShift) + (pos &&& (pageSize - 1)) = pos := by
  refine UInt64.toNat_inj.mp ?_
  have low := pos.toNat_lt
  have shifted : ((pos >>> pageShift) <<< pageShift).toNat = pos.toNat / 4096 * 4096 := by
    rw [toNat_shiftLeft_pageShift, toNat_pageIndex]
    omega
  rw [toNat_add_of_lt] <;> rw [toNat_pageOffset] <;> omega

/-- The page of the end of a file that is not empty, and the bytes of the file in it. -/
theorem FileSize.toNat_last (isize : FileSize) (filled : isize.bytes ≠ 0) :
    ((isize.bytes - 1) >>> pageShift).toNat = (isize.bytes.toNat - 1) / 4096 ∧
    (((isize.bytes - 1) &&& (pageSize - 1)) + 1).toNat = (isize.bytes.toNat - 1) % 4096 + 1 := by
  have positive : 0 < isize.bytes.toNat :=
    pos_of_ne_zero fun zero => filled (UInt64.toNat_inj.mp zero)
  have less : (isize.bytes - 1).toNat = isize.bytes.toNat - 1 := toNat_sub_of_toNat_le positive
  have one : (1 : UInt64).toNat = 1 := rfl
  rw [toNat_pageIndex, toNat_add_of_lt] <;> rw [toNat_pageOffset, less]
  · exact ⟨rfl, rfl⟩
  · omega

/-- A copy out of a page goes through exactly for memory segments. -/
theorem copyPageToIter_outcome {data : Nat → UInt8} {offset bytes : UInt64} {i : IovIter}
    {memory : Memory} (valid : i.type = .kvec → i.Valid) (wants : i.count ≠ 0)
    (inPage : offset.toNat + bytes.toNat ≤ 4096) :
    match copyPageToIter data offset bytes i memory with
    | .ok (ret, iter, written) => i.type = .kvec ∧
      ret.toNat = min bytes.toNat i.count.toNat ∧ iter.count.toNat = i.count.toNat - bytes.toNat ∧
      written = scatter i.targets
        ((List.range bytes.toNat).map fun place => data (offset.toNat + place)) memory
    | .error _ => i.type ≠ .kvec := by
  have sum : (bytes + offset).toNat = bytes.toNat + offset.toNat := toNat_add_of_lt (by omega)
  have sane : bytes ≤ bytes + offset ∧ bytes + offset ≤ pageSize := by
    rw [le_iff_toNat_le, le_iff_toNat_le, toNat_pageSize]
    omega
  rw [copyPageToIter, if_neg (not_not.mpr sane)]
  by_cases isKvec : i.type = .kvec
  · obtain ⟨_, ran, _, _, count⟩ := (valid isKvec).copyToIter
      ((range bytes.toNat).map fun place => data (offset.toNat + place)) memory
    rw [length_map, length_range] at ran count
    rw [if_pos (.inr isKvec), ran]
    refine ⟨isKvec, ?_, count, rfl⟩
    exact (toNat_ofNat' ..).trans (mod_eq_of_lt (by omega))
  · by_cases isBvec : i.type = .bvec
    · rw [if_pos (.inl isBvec), copyToIter, isBvec]
      rw [if_neg wants]
      show IterType.bvec ≠ .kvec
      decide
    · rw [if_neg (not_or.mpr ⟨isBvec, isKvec⟩)]
      exact isKvec

section Page

variable {file : RegularFile} {state : FileRead} {page prevIndex prevOffset : UInt64}

/-- Nothing is to be copied behind the end of the file. -/
theorem copied_nothing (behind : file.isize.bytes.toNat ≤ state.kiPos.toNat) :
    Copied file state (finishRead state prevIndex prevOffset (state.kiPos >>> pageShift)
        (state.kiPos &&& (pageSize - 1)) 0).1
      (finishRead state prevIndex prevOffset (state.kiPos >>> pageShift)
        (state.kiPos &&& (pageSize - 1)) 0).2 := by
  have none : state.size file = 0 := by
    rw [FileRead.size, Nat.sub_eq_zero_of_le behind, min_zero]
  refine ⟨none.symm, ?_, ?_⟩
  · rw [none]
    exact congrArg toNat (pageIndex_shiftLeft_add state.kiPos)
  · rw [none, range_zero, map_nil, scatter_nil]
    rfl

/-- The bytes of the file that are left in the page of a position in it. -/
theorem toNat_left (inside : state.kiPos.toNat < file.isize.bytes.toNat) :
    let endIndex := (file.isize.bytes - 1) >>> pageShift
    let nr := if state.kiPos >>> pageShift = endIndex then
      ((file.isize.bytes - 1) &&& (pageSize - 1)) + 1 else pageSize
    ¬(file.isize.bytes = 0 ∨ state.kiPos >>> pageShift > endIndex) ∧
    ¬(state.kiPos >>> pageShift = endIndex ∧ nr ≤ state.kiPos &&& (pageSize - 1)) ∧
    (nr - (state.kiPos &&& (pageSize - 1))).toNat =
      min (4096 - state.kiPos.toNat % 4096) (file.isize.bytes.toNat - state.kiPos.toNat) := by
  intro endIndex nr
  have filled : file.isize.bytes ≠ 0 := by
    intro zero
    rw [zero] at inside
    cases inside
  obtain ⟨isEnd, _⟩ := file.isize.toNat_last filled
  have isIndex := toNat_pageIndex state.kiPos
  have isOffset := toNat_pageOffset state.kiPos
  have notAfter : ¬state.kiPos >>> pageShift > endIndex := by
    rw [gt_iff_lt, lt_iff_toNat_lt, isEnd]
    omega
  have number : nr.toNat = min 4096 (file.isize.bytes.toNat - state.kiPos.toNat / 4096 * 4096) := by
    dsimp only [nr]
    split
    · next last =>
      have same := congrArg toNat last
      rw [isEnd] at same
      omega
    · next before =>
      have different : state.kiPos.toNat / 4096 ≠ (file.isize.bytes.toNat - 1) / 4096 := by
        rw [← isEnd, ← isIndex]
        exact fun same => before (UInt64.toNat_inj.mp same)
      rw [toNat_pageSize]
      omega
  have above : (state.kiPos &&& (pageSize - 1)).toNat < nr.toNat := by
    omega
  refine ⟨not_or.mpr ⟨filled, notAfter⟩, fun last => ?_, ?_⟩
  · exact absurd (le_iff_toNat_le.mp last.2) (not_le.mpr above)
  · rw [toNat_sub_of_toNat_le above.le]
    omega

/-- The position after bytes that end in the page. -/
theorem toNat_nextPosition {pos ret : UInt64} (small : pos.toNat < 2 ^ 63)
    (inPage : pos.toNat % 4096 + ret.toNat ≤ 4096) :
    let offset := (pos &&& (pageSize - 1)) + ret
    ((((pos >>> pageShift) + (offset >>> pageShift)) <<< pageShift) +
      (offset &&& (pageSize - 1))).toNat = pos.toNat + ret.toNat := by
  intro offset
  have isOffset : offset.toNat = pos.toNat % 4096 + ret.toNat := by
    rw [toNat_add_of_lt] <;> rw [toNat_pageOffset]
    omega
  have isIndex : ((pos >>> pageShift) + (offset >>> pageShift)).toNat =
      pos.toNat / 4096 + (pos.toNat % 4096 + ret.toNat) / 4096 := by
    rw [toNat_add_of_lt] <;> rw [toNat_pageIndex, toNat_pageIndex, isOffset]
    omega
  have shifted : (((pos >>> pageShift) + (offset >>> pageShift)) <<< pageShift).toNat =
      (pos.toNat / 4096 + (pos.toNat % 4096 + ret.toNat) / 4096) * 4096 := by
    rw [toNat_shiftLeft_pageShift]
    omega
  rw [toNat_add_of_lt] <;> rw [toNat_pageOffset, isOffset] <;> omega

/-- The bytes that the targets take of a page are those of the file. -/
theorem scatter_page {data : Nat → UInt8} {offset pos bytes : Nat} {targets : List UInt64}
    {memory : Memory} (short : targets.length ≤ bytes)
    (shown : ∀ place, place < targets.length → data (offset + place) = file.bytes (pos + place)) :
    scatter targets ((List.range bytes).map fun place => data (offset + place)) memory =
      scatter targets ((List.range targets.length).map fun place => file.bytes (pos + place))
        memory := by
  have cut := scatter_take_bytes targets ((range bytes).map fun place => data (offset + place))
    targets.length memory
  rw [take_length, ← map_take, take_range, min_eq_left short] at cut
  rw [← cut]
  refine congrArg (scatter targets · memory) (map_congr_left fun place member => ?_)
  exact shown place (mem_range.mp member)

/-- With a page that shows the file, the read is right if it is in one page, and fails
otherwise. -/
theorem readFromPage_outcome (valid : state.iter.type = .kvec → state.iter.Valid)
    (wants : state.iter.count ≠ 0) (small : state.kiPos.toNat < 2 ^ 63)
    (shown : ∀ offset, offset < 4096 →
      state.kiPos.toNat / 4096 * 4096 + offset < file.isize.bytes.toNat →
      (state.cache.pages page).data offset =
        file.bytes (state.kiPos.toNat / 4096 * 4096 + offset)) :
    match readFromPage file state page (state.kiPos >>> pageShift) (state.kiPos &&& (pageSize - 1))
      prevIndex prevOffset 0 with
    | .ok (ret, after) => Copied file state ret after ∧ OnePage file state
    | .error _ => ¬OnePage file state := by
  rcases lt_or_ge state.kiPos.toNat file.isize.bytes.toNat with inside | behind
  · obtain ⟨notOut, notEnd, left⟩ := @toNat_left file state inside
    rw [readFromPage]
    dsimp only at notOut notEnd left ⊢
    rw [if_neg notOut, if_neg notEnd]
    generalize (if state.kiPos >>> pageShift = (file.isize.bytes - 1) >>> pageShift then
      ((file.isize.bytes - 1) &&& (pageSize - 1)) + 1 else pageSize) -
        (state.kiPos &&& (pageSize - 1)) = nr at left ⊢
    have isOffset := toNat_pageOffset state.kiPos
    have copies := @copyPageToIter_outcome (state.cache.pages page).data
      (state.kiPos &&& (pageSize - 1)) nr state.iter state.memory valid wants (by omega)
    generalize copyPageToIter .. = result at copies ⊢
    cases result with
    | error fault =>
      rintro (behind | ⟨isKvec, _⟩)
      · exact absurd inside (not_lt.mpr behind)
      · exact copies isKvec
    | ok result =>
      obtain ⟨ret, iter, memory⟩ := result
      obtain ⟨isKvec, _, count, written⟩ := copies
      have room : state.iter.targets.length = _ := length_take_of_le (valid isKvec).room
      rw [Kernel.ok_bind]
      dsimp only
      split_ifs with usedUp
      · have zero : iter.count.toNat = 0 := congrArg toNat usedUp
        have isSize : state.size file = state.iter.count.toNat := by
          rw [FileRead.size]
          omega
        refine ⟨⟨?_, ?_, ?_⟩, .inr ⟨isKvec, by omega, by omega⟩⟩
        · rw [zero_add]
          omega
        · refine (toNat_nextPosition small ?_).trans ?_ <;> omega
        · rw [isSize, ← room]
          refine written.trans (scatter_page (by omega) fun place below => ?_)
          have whole : state.kiPos.toNat / 4096 * 4096 +
              ((state.kiPos &&& (pageSize - 1)).toNat + place) = state.kiPos.toNat + place := by
            omega
          rw [shown _ (by omega) (by omega), whole]
      · have more : iter.count.toNat ≠ 0 := fun zero => usedUp (UInt64.toNat_inj.mp zero)
        rintro (behind | ⟨_, inPage, inFile⟩) <;> omega
  · rw [readFromPage]
    by_cases out : file.isize.bytes = 0 ∨
        state.kiPos >>> pageShift > (file.isize.bytes - 1) >>> pageShift
    · rw [if_pos out]
      exact ⟨copied_nothing behind, .inl behind⟩
    · obtain ⟨filled, notAfter⟩ := not_or.mp out
      have positive : 0 < file.isize.bytes.toNat :=
        pos_of_ne_zero fun zero => filled (UInt64.toNat_inj.mp zero)
      obtain ⟨isEnd, _⟩ := file.isize.toNat_last filled
      rw [gt_iff_lt, lt_iff_toNat_lt, isEnd, toNat_pageIndex] at notAfter
      obtain ⟨last, short⟩ : state.kiPos >>> pageShift = (file.isize.bytes - 1) >>> pageShift ∧
          ((file.isize.bytes - 1) &&& (pageSize - 1)) + 1 ≤ state.kiPos &&& (pageSize - 1) := by
        rw [← UInt64.toNat_inj, le_iff_toNat_le, toNat_pageIndex, toNat_pageOffset]
        omega
      rw [if_neg out, if_pos last, if_pos ⟨last, short⟩]
      exact ⟨copied_nothing behind, .inl behind⟩

end Page

/-! ### Getting the page -/

section Find

variable {file : RegularFile} {method : ReadaheadMethod} {ioPages : UInt64} {ra : FileRaState}
  {cache : PageCache} {index reqCount : UInt64}

/-- Whether read-ahead at the start of the file gets the first page. -/
theorem zero_mem_due {isize : FileSize} {nrToRead : UInt64} (absent : cache.iPages 0 = none) :
    (0 : UInt64).toNat ∈ cache.due isize 0 nrToRead ↔ isize.bytes ≠ 0 ∧ nrToRead ≠ 0 := by
  have positive (word : UInt64) : 0 < word.toNat ↔ word ≠ 0 :=
    ⟨fun more same => absurd (same ▸ more) (lt_irrefl _),
      fun other => pos_of_ne_zero fun zero => other (UInt64.toNat_inj.mp zero)⟩
  rw [PageCache.due, ← positive, ← positive]
  constructor
  · rintro ⟨_, inRange, inFile, _⟩
    omega
  · rintro ⟨inFile, inRange⟩
    refine ⟨le_refl _, ?_, ?_, absent⟩ <;> rw [UInt64.toNat_zero] <;> omega

/-- A page is found, and it is not marked, exactly if it is at hand. -/
theorem findOrReadPage_outcome (filed : cache.Filed file) (reads : method.Reads file)
    (few : cache.free.length < 2 ^ 32)
    (enough : (cache.due file.isize 0 (raWindow ra.raPages ioPages reqCount).1.toUInt64).ncard ≤
      cache.free.length) :
    match findOrReadPage file method ioPages ra cache index reqCount with
    | .ok (_, after, page) => after.Filed file ∧ after.iPages index = some page ∧
      ((after.pages page).readahead = false ↔ AtHand file ioPages ra cache index reqCount)
    | .error _ => ¬AtHand file ioPages ra cache index reqCount := by
  rw [findOrReadPage, AtHand]
  cases found : cache.iPages index with
  | some page => exact ⟨filed, found, Iff.rfl⟩
  | none =>
    rw [pageCacheSyncReadahead]
    split_ifs with noPages
    · rw [Kernel.ok_bind]
      dsimp only
      rw [found]
      exact fun atHand => atHand.2.1 noPages
    · rw [ondemandReadahead]
      by_cases first : index = 0
      · rw [first] at found ⊢
        rw [if_neg (not_not.mpr rfl)]
        dsimp only
        generalize raWindow ra.raPages ioPages reqCount = window at enough ⊢
        have offers := doPageCacheReadahead_cases method file.isize cache 0 window.1.toUInt64
          window.2.toUInt64 filed.toSound few
        generalize ran : doPageCacheReadahead .. = result at offers ⊢
        cases result with
        | error fault => exact absurd offers.2 (not_lt.mpr enough)
        | ok reading =>
          have furnished := filed.doPageCacheReadahead reads ran
          have due := @zero_mem_due cache file.isize window.1.toUInt64 found
          have wide : window.1.toUInt64 ≠ 0 ↔ window.1 ≠ 0 := by
            rw [ne_eq, ne_eq, ← UInt64.toNat_inj, ← UInt32.toNat_inj]
            exact Iff.rfl
          rw [wide] at due
          rw [Kernel.ok_bind, pure_bind]
          cases isFound : reading.cache.iPages 0 with
          | none =>
            rintro ⟨_, _, filled, wanted, _⟩
            exact offers.filled 0 (due.mpr ⟨filled, wanted⟩) isFound
          | some page =>
            have isDue : (0 : UInt64).toNat ∈ cache.due file.isize 0 window.1.toUInt64 := by
              by_contra notDue
              rw [offers.same 0 notDue, found] at isFound
              cases isFound
            have mark := furnished.marked 0 page found isFound
            refine ⟨furnished.toFiled, isFound, ?_⟩
            rw [mark, decide_eq_false_iff_not, sub_self]
            constructor
            · intro unmarked
              refine ⟨rfl, noPages, (due.mp isDue).1, (due.mp isDue).2, fun same => unmarked ?_⟩
              rw [same, sub_self]
            · rintro ⟨_, _, _, _, different⟩ same
              refine different ?_
              grind
      · rw [if_pos first]
        exact fun atHand => first atHand.1

end Find

/-! ### The read -/

/-- The reads of pages complete, with the bytes of the file. -/
structure Completes (file : RegularFile) (complete : UInt64 → FilePage → FilePage) : Prop where
  uptodate : ∀ page fields, (complete page fields).uptodate = true
  index : ∀ page fields, (complete page fields).index = fields.index
  shows : ∀ page fields, (complete page fields).Shows file

/-- A page that is up to date is there after the wait. -/
theorem waitUptodate_shows {file : RegularFile} {complete : UInt64 → FilePage → FilePage}
    {cache : PageCache} {index page : UInt64} (completes : Completes file complete)
    (filed : cache.Filed file) (cached : cache.iPages index = some page) :
    ∃ after, waitUptodate complete cache page = .ok after ∧
      ∀ offset, offset < 4096 → index.toNat * 4096 + offset < file.isize.bytes.toNat →
        (after.pages page).data offset = file.bytes (index.toNat * 4096 + offset) := by
  rw [waitUptodate]
  have placed := filed.placed index page cached
  split_ifs with ready
  · refine ⟨cache, rfl, ?_⟩
    rw [← placed]
    exact filed.shows index page cached ready
  · have read : ((cache.modifyPage page (complete page)).pages page).uptodate = true := by
      rw [cache.modifyPage_self]
      exact completes.uptodate ..
    rw [if_pos read]
    refine ⟨_, rfl, ?_⟩
    rw [cache.modifyPage_self, ← placed, ← completes.index page (cache.pages page)]
    exact completes.shows page _ (completes.uptodate ..)

/-- `generic_file_read_iter` copies the right bytes exactly if there is nothing to copy or the read
stays in one page that is at hand, and fails otherwise. -/
theorem genericFileReadIter_copies_iff (file : RegularFile) (method : ReadaheadMethod)
    (vaPaOffset ioPages : UInt64) (complete : UInt64 → FilePage → FilePage) (state : FileRead)
    (filed : state.cache.Filed file) (reads : method.Reads file)
    (completes : Completes file complete) (linear : state.cache.Linear vaPaOffset)
    (enough : (state.cache.due file.isize 0 (raWindow state.ra.raPages ioPages
      (((state.kiPos + state.iter.count + pageSize - 1) >>> pageShift) -
        (state.kiPos >>> pageShift))).1.toUInt64).ncard ≤ state.cache.free.length)
    (valid : state.iter.type = .kvec → state.iter.Valid) (small : state.kiPos.toNat < 2 ^ 63) :
    (∃ ret after, genericFileReadIter file method ioPages complete state = .ok (ret, after) ∧
        Copied file state ret after) ↔
      state.iter.count = 0 ∨ OnePage file state ∧
        AtHand file ioPages state.ra state.cache (state.kiPos >>> pageShift)
          (((state.kiPos + state.iter.count + pageSize - 1) >>> pageShift) -
            (state.kiPos >>> pageShift)) := by
  rw [genericFileReadIter]
  split_ifs with none
  · have isSize : state.size file = 0 := by
      rw [FileRead.size, none]
      exact zero_min _
    refine iff_of_true ⟨0, state, rfl, isSize.symm, ?_, ?_⟩ (.inl none)
    · rw [isSize, add_zero]
    · rw [isSize, range_zero, map_nil, scatter_nil]
  · rw [or_iff_right none, genericFileBufferedRead]
    generalize ((state.kiPos + state.iter.count + pageSize - 1) >>> pageShift) -
      (state.kiPos >>> pageShift) = reqCount at enough ⊢
    have finds := @findOrReadPage_outcome file method ioPages state.ra state.cache
      (state.kiPos >>> pageShift) reqCount filed reads linear.length_lt enough
    generalize findOrReadPage .. = result at finds ⊢
    cases result with
    | error fault =>
      exact iff_of_false (fun ⟨_, _, ran, _⟩ => nomatch ran) fun holds => finds holds.2
    | ok result =>
      obtain ⟨ra, cache, page⟩ := result
      obtain ⟨filedNow, cached, marked⟩ := finds
      rw [Kernel.ok_bind]
      dsimp only at filedNow cached marked ⊢
      rw [← marked]
      split_ifs with isMarked
      · rw [isMarked]
        exact iff_of_false (fun ⟨_, _, ran, _⟩ => nomatch ran) fun holds => nomatch holds.2
      · rw [and_iff_left (Bool.eq_false_iff.mpr isMarked)]
        obtain ⟨after, waited, shown⟩ := waitUptodate_shows completes filedNow cached
        rw [waited, Kernel.ok_bind]
        rw [toNat_pageIndex] at shown
        have outcome := @readFromPage_outcome file { state with ra, cache := after } page
          (state.ra.prevPos >>> pageShift)
            (state.ra.prevPos &&& (pageSize - 1)) valid none small shown
        generalize readFromPage .. = result at outcome ⊢
        cases result with
        | error fault => exact iff_of_false (fun ⟨_, _, ran, _⟩ => nomatch ran) outcome
        | ok result =>
          obtain ⟨⟨returned, advanced, written⟩, onePage⟩ := outcome
          exact iff_of_true ⟨_, _, rfl, returned, advanced, written⟩ onePage

/-- The device puts the bytes of the file into a page. -/
def completeRead (file : RegularFile) (_ : UInt64) (fields : FilePage) : FilePage where
  mapping := fields.mapping
  index := fields.index
  uptodate := true
  readahead := fields.readahead
  active := fields.active
  data := fun place => file.bytes (fields.index.toNat * 4096 + place)

/-- A file of two bytes. -/
def shortFile : RegularFile := ⟨⟨2, by decide⟩, fun place => UInt8.ofNat (65 + place)⟩

/-- A read of the short file, whose page is in the cache. -/
def shortRead (kiPos count : UInt64) : FileRead where
  kiPos := kiPos
  ra := ⟨0, 0, 0, 32, 0xffffffffffffffff⟩
  cache := ⟨0, fun index => if index = 0 then some 5 else none,
    fun _ => ⟨0, 0, true, false, false, shortFile.bytes⟩, 1, []⟩
  iter := ⟨.kvec, 0, count, [⟨0x1000, count⟩]⟩
  memory := fun _ => 0

theorem filed_shortRead (kiPos count : UInt64) : (shortRead kiPos count).cache.Filed shortFile := by
  have first : ∀ index page, (shortRead kiPos count).cache.iPages index = some page →
      index = 0 := by
    intro index page found
    by_contra other
    rw [shortRead] at found
    dsimp only at found
    rw [if_neg other] at found
    cases found
  refine ⟨⟨nodup_nil, fun _ _ _ => not_mem_nil, nofun⟩, fun index page found => ?_,
    fun index page found _ offset _ _ => ?_, nofun, nofun⟩
  · rw [first index page found]
    rfl
  · show shortFile.bytes offset = shortFile.bytes ((0 : UInt64).toNat * 4096 + offset)
    rw [UInt64.toNat_zero, Nat.zero_add]

theorem valid_shortRead (kiPos count : UInt64) : (shortRead kiPos count).iter.Valid := by
  refine ⟨rfl, ?_, ?_⟩
  · rintro _ ⟨⟩
    exact le_iff_toNat_le.mpr (zero_le _)
  · show count.toNat ≤ (addresses 0x1000 count.toNat ++ []).length
    rw [append_nil, length_addresses]

theorem ncard_due_shortRead (kiPos count nrToRead : UInt64) :
    ((shortRead kiPos count).cache.due shortFile.isize 0 nrToRead).ncard ≤ 0 := by
  have none : (shortRead kiPos count).cache.due shortFile.isize 0 nrToRead = ∅ := by
    refine Set.eq_empty_iff_forall_notMem.mpr fun page due => ?_
    have inFile : page * 4096 < 2 := due.2.2.1
    have absent := due.2.2.2
    rw [show page = 0 by omega] at absent
    cases absent
  rw [none, Set.ncard_empty]

/-- The short file is read into a buffer of its size. -/
theorem genericFileReadIter_copies_iff_whole : ∃ ret after,
    genericFileReadIter shortFile ⟨fun _ _ => 0, fun _ fields => fields⟩ 32
      (completeRead shortFile) (shortRead 0 2) = .ok (ret, after) ∧
    Copied shortFile (shortRead 0 2) ret after := by
  have reads : ReadaheadMethod.Reads ⟨fun _ _ => 0, fun _ fields => fields⟩ shortFile :=
    ⟨fun _ _ => rfl, fun _ _ => rfl, fun _ _ => rfl, fun _ _ shows => shows⟩
  have completes : Completes shortFile (completeRead shortFile) :=
    ⟨fun _ _ => rfl, fun _ _ => rfl, fun _ _ _ _ _ _ => rfl⟩
  have onePage : OnePage shortFile (shortRead 0 2) := .inr ⟨rfl, by decide, by decide⟩
  refine (genericFileReadIter_copies_iff shortFile _ 0 32 _ (shortRead 0 2) (filed_shortRead 0 2)
    reads completes ⟨nofun, nodup_nil⟩ (ncard_due_shortRead 0 2 _)
    (fun _ => valid_shortRead 0 2) (Nat.two_pow_pos 63)).mpr (.inr ⟨onePage, ?_⟩)
  rfl

/-- A buffer that is larger than the file, and a read of the second page, which is not cached. -/
theorem genericFileReadIter_panics :
    (genericFileReadIter shortFile ⟨fun _ _ => 0, fun _ fields => fields⟩ 32
      (completeRead shortFile) (shortRead 0 3)).map Prod.fst = .error (.panic "copy page error!") ∧
    (genericFileReadIter shortFile ⟨fun _ _ => 0, fun _ fields => fields⟩ 32
      (completeRead shortFile) (shortRead 4096 1)).map Prod.fst = .error .bug := by
  decide +kernel

end Xlinux
