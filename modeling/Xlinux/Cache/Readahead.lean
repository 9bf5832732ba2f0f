/-
This file models the page cache of one file and the read-ahead of
`readahead/readahead.c`: the loop that fills the gaps of the cache and gives each
contiguous batch of new pages to the `->readahead` method of the file system,
with the control block that the loop, `read_pages` and the method share.
-/

import Xlinux.Paging.Tables
import Xlinux.Lib.Scan

namespace Xlinux

open Hoare Spans List Nat UInt64
open Function

variable {cache : PageCache}

/-! ### The page cache -/

/-- The fields of `struct page` that the page cache uses, and the bytes of the page. -/
structure FilePage where
  mapping : UInt64
  index : UInt64
  uptodate : Bool
  readahead : Bool
  active : Bool
  data : Nat → UInt8

/-- The page cache of a file: the address of its `struct address_space`, the pages by their index
in `i_pages`, the fields of each page by its frame number, and the frame numbers that the page
allocator hands out next. -/
structure PageCache where
  mapping : UInt64
  iPages : UInt64 → Option UInt64
  pages : UInt64 → FilePage
  nrpages : UInt64
  free : List UInt64

/-- `struct readahead_control`. -/
structure ReadaheadControl where
  index : UInt64
  nrPages : UInt32
  batchCount : UInt32
  deriving DecidableEq, Repr

/-- What read-ahead works on, and the batches that the method was given, each with its first index
and its number of pages. -/
structure Reading where
  cache : PageCache
  rac : ReadaheadControl
  offered : List (UInt64 × UInt32)

/-- Code of the read-ahead. -/
abbrev Readahead := StateT Reading Kernel

/-- A `->readahead` method: how often it calls `readahead_page`, and what it does with the pages
that it gets. -/
structure ReadaheadMethod where
  calls : PageCache → ReadaheadControl → Nat
  read : UInt64 → FilePage → FilePage

/-- A write to the fields of a page. -/
def PageCache.modifyPage (cache : PageCache) (page : UInt64) (change : FilePage → FilePage) :
    PageCache :=
  { cache with pages := update cache.pages page (change (cache.pages page)) }

@[simp] theorem PageCache.modifyPage_self (cache : PageCache) (page : UInt64)
    (change : FilePage → FilePage) :
    (cache.modifyPage page change).pages page = change (cache.pages page) :=
  update_self ..

theorem PageCache.modifyPage_other (cache : PageCache) {page other : UInt64}
    (different : other ≠ page) (change : FilePage → FilePage) :
    (cache.modifyPage page change).pages other = cache.pages other :=
  update_of_ne different ..

/-- `__add_to_page_cache_locked` and `_add_to_page_cache_lru`, when there is memory for the nodes
that `xas_store` needs. -/
def addToPageCacheLru (cache : PageCache) (page offset : UInt64) : Kernel PageCache := do
  let cache := cache.modifyPage page fun fields =>
    { fields with mapping := cache.mapping, index := offset }
  match cache.iPages offset with
  | some _ => throw (.panic "already exist! (%p)")
  | none =>
    if (cache.pages page).active then throw .bug
    return { cache with
      iPages := update cache.iPages offset (some page)
      nrpages := cache.nrpages + 1 }

/-- A page that is not active can be added where there is none. -/
theorem addToPageCacheLru_eq {page offset : UInt64} (absent : cache.iPages offset = none)
    (idle : (cache.pages page).active = false) :
    addToPageCacheLru cache page offset = .ok { cache.modifyPage page fun fields =>
          { fields with mapping := cache.mapping, index := offset } with
        iPages := update cache.iPages offset (some page)
        nrpages := cache.nrpages + 1 } := by
  have stays : ((cache.modifyPage page fun fields =>
      { fields with mapping := cache.mapping, index := offset }).pages page).active ≠ true := by
    rw [PageCache.modifyPage_self, ne_eq, Bool.not_eq_true]
    exact idle
  rw [addToPageCacheLru]
  rw [show (cache.modifyPage page _).iPages offset = none from absent]
  exact if_neg stays

/-! ### Read-ahead -/

/-- `readahead_page`. -/
def readaheadPage : Readahead (Option UInt64) := do
  let state ← get
  let rac := state.rac
  if rac.batchCount > rac.nrPages then throw .bug
  let nrPages := rac.nrPages - rac.batchCount
  let index := rac.index + rac.batchCount.toUInt64
  if nrPages = 0 then
    set { state with rac := ⟨index, nrPages, 0⟩ }
    return none
  set { state with rac := ⟨index, nrPages, 1⟩ }
  return state.cache.iPages index

/-- The calls that a method makes. -/
def callMethod (method : ReadaheadMethod) : Nat → Readahead Unit
  | 0 => return ()
  | calls + 1 => do
    if let some page ← readaheadPage then
      modify fun state => { state with cache := state.cache.modifyPage page (method.read page) }
    callMethod method calls

/-- The loop of `read_pages` over the pages that the method left. -/
def cleanUp : Nat → Readahead Unit
  | 0 => throw .endless
  | turns + 1 => do
    match ← readaheadPage with
    | some _ => cleanUp turns
    | none => return ()

/-- `read_pages`, for a file system with a `->readahead` method. The pool of pages is empty at all
times. -/
def readPages (method : ReadaheadMethod) (skipPage : Bool) : Readahead Unit := do
  let state ← get
  let rac := state.rac
  if rac.nrPages ≠ 0 then
    modify fun state => { state with offered := state.offered ++ [(rac.index, rac.nrPages)] }
    callMethod method (method.calls state.cache rac)
    cleanUp maxTurns
    if (← get).rac.nrPages ≠ 0 then throw .bug
  if skipPage then
    modify fun state => { state with rac := { state.rac with index := state.rac.index + 1 } }

/-- The loop of `page_cache_readahead_unbounded`, with the number of turns that are left. -/
def readaheadLoop (method : ReadaheadMethod) (index nrToRead lookaheadSize : UInt64) :
    Nat → UInt64 → Readahead Unit
  | 0, _ => return ()
  | left + 1, i => do
    let state ← get
    if index + i ≠ state.rac.index + state.rac.nrPages.toUInt64 then throw .bug
    match state.cache.iPages (index + i) with
    | some _ => readPages method true
    | none =>
      match state.cache.free with
      | [] => throw (.panic "out of memory!")
      | page :: free =>
        let cache ← addToPageCacheLru { state.cache with free } page (index + i)
        let cache := if i = nrToRead - lookaheadSize then
            cache.modifyPage page fun fields => { fields with readahead := true }
          else cache
        set { state with cache, rac := { state.rac with nrPages := state.rac.nrPages + 1 } }
    readaheadLoop method index nrToRead lookaheadSize left (i + 1)

/-- `page_cache_readahead_unbounded`. -/
def pageCacheReadaheadUnbounded (method : ReadaheadMethod) (cache : PageCache)
    (index nrToRead lookaheadSize : UInt64) : Kernel Reading := do
  let (_, state) ← (do
    readaheadLoop method index nrToRead lookaheadSize nrToRead.toNat 0
    readPages method false : Readahead Unit).run ⟨cache, ⟨index, 0, 0⟩, []⟩
  return state

/-- A file size, a `loff_t` that is not negative. -/
structure FileSize where
  bytes : UInt64
  positive : bytes.toNat < 2 ^ 63

/-- `__do_page_cache_readahead`. -/
def doPageCacheReadahead (method : ReadaheadMethod) (isize : FileSize) (cache : PageCache)
    (index nrToRead lookaheadSize : UInt64) : Kernel Reading :=
  if isize.bytes = 0 then .ok ⟨cache, ⟨index, 0, 0⟩, []⟩
  else
    let endIndex := (isize.bytes - 1) >>> pageShift
    if index > endIndex then .ok ⟨cache, ⟨index, 0, 0⟩, []⟩
    else
      let nrToRead := if nrToRead > endIndex - index then endIndex - index + 1 else nrToRead
      pageCacheReadaheadUnbounded method cache index nrToRead lookaheadSize

/-! ### One batch -/

/-- The pages that are handed out are different, are not in the cache and are not active. -/
structure PageCache.Sound (cache : PageCache) : Prop where
  distinct : cache.free.Nodup
  fresh : ∀ index page, cache.iPages index = some page → page ∉ cache.free
  idle : ∀ page ∈ cache.free, (cache.pages page).active = false

/-- A write to a page of the cache. -/
theorem PageCache.Sound.modifyPage (sound : cache.Sound) {index page : UInt64}
    (cached : cache.iPages index = some page) (change : FilePage → FilePage) :
    (cache.modifyPage page change).Sound where
  distinct := sound.distinct
  fresh := sound.fresh
  idle other member := by
    have different : other ≠ page := fun same => sound.fresh index page cached (same ▸ member)
    rw [cache.modifyPage_other different]
    exact sound.idle other member

/-- The first free page is put into the cache. -/
structure PageCache.Adds (cache after : PageCache) (index page : UInt64) : Prop where
  free : cache.free = page :: after.free
  iPages : after.iPages = update cache.iPages index (some page)
  others : ∀ other, other ≠ page → after.pages other = cache.pages other

theorem PageCache.Adds.modifyPage {cache after : PageCache} {index page : UInt64}
    (adds : cache.Adds after index page) (change : FilePage → FilePage) :
    cache.Adds (after.modifyPage page change) index page :=
  ⟨adds.free, adds.iPages, fun other different =>
    (after.modifyPage_other different change).trans (adds.others other different)⟩

theorem adds_added {page : UInt64} {free : List UInt64} (first : cache.free = page :: free)
    (index nrpages : UInt64) (change : FilePage → FilePage) :
    cache.Adds { PageCache.modifyPage { cache with free } page change with
      iPages := update cache.iPages index (some page), nrpages } index page :=
  ⟨first, rfl, fun _ different => PageCache.modifyPage_other _ different change⟩

namespace PageCache.Sound

variable {cache after : PageCache} {index page other : UInt64} (sound : cache.Sound)
  (adds : cache.Adds after index page)

include sound adds

/-- A cached page is the new one, or it was cached before. -/
theorem cached_cases {place : UInt64} (found : after.iPages place = some other) :
    place = index ∧ other = page ∨ other ≠ page ∧ cache.iPages place = some other := by
  rw [adds.iPages] at found
  rcases eq_or_ne place index with rfl | here
  · rw [update_self, Option.some_inj] at found
    exact .inl ⟨rfl, found.symm⟩
  · rw [update_of_ne here] at found
    refine .inr ⟨?_, found⟩
    rintro rfl
    exact sound.fresh place other found (adds.free ▸ mem_cons_self)

theorem free_cases (inside : other ∈ after.free) : other ≠ page ∧ other ∈ cache.free := by
  have distinct := sound.distinct
  rw [adds.free] at distinct ⊢
  exact ⟨fun same => (nodup_cons.mp distinct).1 (same ▸ inside), mem_cons_of_mem page inside⟩

theorem add : after.Sound := by
  have distinct := sound.distinct
  rw [adds.free] at distinct
  refine ⟨distinct.of_cons, fun place other found inside => ?_, fun other inside => ?_⟩
  · obtain ⟨different, isFree⟩ := sound.free_cases adds inside
    rcases sound.cached_cases adds found with ⟨_, same⟩ | ⟨_, before⟩
    · exact different same
    · exact sound.fresh place other before isFree
  · obtain ⟨different, isFree⟩ := sound.free_cases adds inside
    rw [adds.others other different]
    exact sound.idle other isFree

end PageCache.Sound

/-- While a batch is consumed, the control block moves through it and the cache stays. -/
structure Consuming (start : Reading) (stop : Nat) (state : Reading) : Prop where
  iPages : state.cache.iPages = start.cache.iPages
  free : state.cache.free = start.cache.free
  sound : state.cache.Sound
  offered : state.offered = start.offered
  single : state.rac.batchCount.toNat ≤ 1
  batch : state.rac.batchCount.toNat ≤ state.rac.nrPages.toNat
  place : state.rac.index.toNat + state.rac.nrPages.toNat = stop
  cached : ∀ index : UInt64, state.rac.index.toNat ≤ index.toNat → index.toNat < stop →
    state.cache.iPages index ≠ none

/-- The pages of a batch that are not taken yet. -/
def ReadaheadControl.left (rac : ReadaheadControl) : Nat := rac.nrPages.toNat - rac.batchCount.toNat

section Batch

variable {start state : Reading} {stop : Nat}

section

variable (consuming : Consuming start stop state) (fits : stop < 2 ^ 64)

include consuming fits

/-- `readahead_page` takes a page off the batch, or finds it empty. -/
theorem Consuming.readaheadPage :
    Returns readaheadPage state fun page after => Consuming start stop after ∧
      match page with
      | some found => (∃ index, after.cache.iPages index = some found) ∧
          after.rac.left + 1 = state.rac.left
      | none => after.rac = ⟨UInt64.ofNat stop, 0, 0⟩ := by
  obtain ⟨samePages, sameFree, sound, sameOffered, _, batch, _, cached⟩ := consuming
  have less : (state.rac.nrPages - state.rac.batchCount).toNat =
      state.rac.nrPages.toNat - state.rac.batchCount.toNat :=
    UInt32.toNat_sub_of_le _ _ (UInt32.le_iff_toNat_le.mpr batch)
  have moved : (state.rac.index + state.rac.batchCount.toUInt64).toNat =
      state.rac.index.toNat + state.rac.batchCount.toNat := by
    refine toNat_add_of_lt ?_
    rw [UInt32.toNat_toUInt64]
    omega
  rw [Xlinux.readaheadPage]
  refine returns_get ?_
  rw [if_neg (UInt32.not_lt.mpr (UInt32.le_iff_toNat_le.mpr batch))]
  dsimp only
  split
  · next empty =>
    rw [empty, UInt32.toNat_zero] at less
    have ends : (state.rac.index + state.rac.batchCount.toUInt64).toNat = stop := by omega
    refine ⟨none, _, rfl, ⟨samePages, sameFree, sound, sameOffered, zero_le 1, zero_le _, ?_,
      fun index above below => ?_⟩, ?_⟩
    · rw [empty]
      exact ends
    · exact absurd below (not_lt.mpr (ends ▸ above))
    · rw [empty, ← ends, UInt64.ofNat_toNat]
  · next more =>
    have positive : 0 < (state.rac.nrPages - state.rac.batchCount).toNat :=
      pos_of_ne_zero fun zero => more (UInt32.toNat_inj.mp zero)
    have isCached := cached (state.rac.index + state.rac.batchCount.toUInt64) (by omega) (by omega)
    refine ⟨_, _, rfl, ⟨samePages, sameFree, sound, sameOffered, le_rfl, positive, ?_,
      fun index above below => ?_⟩, ?_⟩
    · dsimp only
      omega
    · exact cached index (by dsimp only at above; omega) below
    · cases found : state.cache.iPages (state.rac.index + state.rac.batchCount.toUInt64) with
      | none => exact absurd found isCached
      | some page =>
        refine ⟨⟨_, found⟩, ?_⟩
        rw [ReadaheadControl.left, ReadaheadControl.left, less]
        rw [UInt32.toNat_one]
        omega

/-- Whatever the method does, the batch stays in order. -/
theorem Consuming.callMethod (method : ReadaheadMethod) (calls : Nat) :
    Returns (callMethod method calls) state fun _ after => Consuming start stop after := by
  induction calls generalizing state with
  | zero => exact returns_pure consuming
  | succ calls ih =>
    rw [callMethod]
    refine (consuming.readaheadPage fits).bind fun page after taken => ?_
    cases page with
    | none => exact ih taken.1
    | some page =>
      obtain ⟨⟨samePages, sameFree, sound, offered, single, batch, place, cached⟩,
        ⟨index, isCached⟩, _⟩ := taken
      refine returns_modify (ih ?_)
      exact ⟨samePages, sameFree, sound.modifyPage isCached _, offered, single, batch,
        place, cached⟩

/-- The pages that the method left are taken off. -/
theorem Consuming.cleanUp {turns : Nat} (enough : state.rac.left < turns) :
    Returns (cleanUp turns) state fun _ after =>
      Consuming start stop after ∧ after.rac = ⟨UInt64.ofNat stop, 0, 0⟩ := by
  induction turns generalizing state with
  | zero => cases enough
  | succ turns ih =>
    rw [cleanUp]
    refine (consuming.readaheadPage fits).bind fun page after taken => ?_
    cases page with
    | none => exact returns_pure taken
    | some page =>
      obtain ⟨next, _, _⟩ := taken
      exact ih next (by omega)

end

/-- Between batches: the control block stands at an index, with pages pending before it. -/
structure Pending (here : Nat) (state : Reading) : Prop where
  sound : state.cache.Sound
  batch : state.rac.batchCount = 0
  place : state.rac.index.toNat + state.rac.nrPages.toNat = here
  cached : ∀ index : UInt64, state.rac.index.toNat ≤ index.toNat → index.toNat < here →
    state.cache.iPages index ≠ none

/-- The indices of a batch. -/
def batchSpan (batch : UInt64 × UInt32) : Span Nat :=
  ⟨batch.1.toNat, batch.1.toNat + batch.2.toNat⟩

/-- `read_pages` gives the pending pages to the method, and nothing is pending after it. -/
theorem Pending.readPages {here : Nat} (pending : Pending here state) (method : ReadaheadMethod)
    (skipPage : Bool) (fits : here + 1 < 2 ^ 64) :
    Returns (readPages method skipPage) state fun _ after =>
      after.cache.iPages = state.cache.iPages ∧ after.cache.free = state.cache.free ∧
      after.cache.Sound ∧
      after.rac = ⟨UInt64.ofNat (if skipPage then here + 1 else here), 0, 0⟩ ∧
      after.offered.map batchSpan =
        addSpan (state.offered.map batchSpan) ⟨state.rac.index.toNat, here⟩ := by
  obtain ⟨sound, batch, place, cached⟩ := pending
  -- the page that is skipped comes last
  have skip : ∀ next : Reading, next.rac = ⟨ofNat here, 0, 0⟩ →
      Returns (if skipPage = true then modify fun state : Reading =>
          { state with rac := { state.rac with index := state.rac.index + 1 } }
        else pure PUnit.unit : Readahead PUnit) next fun _ after => after.cache = next.cache ∧
          after.offered = next.offered ∧
          after.rac = ⟨ofNat (if skipPage then here + 1 else here), 0, 0⟩ := by
    intro next isRac
    cases skipPage with
    | false => exact returns_pure ⟨rfl, rfl, isRac⟩
    | true =>
      refine ⟨_, _, rfl, rfl, rfl, ?_⟩
      dsimp only
      rw [isRac, if_pos rfl, ofNat_add]
      rfl
  rw [Xlinux.readPages]
  refine returns_get ?_
  dsimp only
  split
  · next filled =>
    have positive : 0 < state.rac.nrPages.toNat :=
      pos_of_ne_zero fun zero => filled (UInt32.toNat_inj.mp zero)
    refine returns_modify ?_
    have consuming : Consuming { state with
        offered := state.offered ++ [(state.rac.index, state.rac.nrPages)] } here { state with
        offered := state.offered ++ [(state.rac.index, state.rac.nrPages)] } := by
      refine ⟨rfl, rfl, sound, rfl, ?_, ?_, place, cached⟩ <;> rw [batch] <;> exact zero_le _
    refine (consuming.callMethod (by omega) method _).bind fun _ between called => ?_
    refine (called.cleanUp (by omega) ?_).bind fun _ cleaned ran => returns_get ?_
    · have bound := between.rac.nrPages.toNat_lt
      rw [ReadaheadControl.left, maxTurns]
      omega
    · obtain ⟨done, isRac⟩ := ran
      rw [isRac]
      refine (skip cleaned isRac).mono fun _ after skipped => ?_
      obtain ⟨sameCache, sameOffered, final⟩ := skipped
      rw [sameCache, sameOffered, done.offered]
      refine ⟨done.iPages, done.free, done.sound, final, ?_⟩
      rw [map_append, addSpan, if_pos (by dsimp only; omega), ← place]
      rfl
  · next empty =>
    have zero : state.rac.nrPages = 0 := not_not.mp empty
    have here_eq : state.rac.index.toNat = here := by
      rw [← place, zero]
      rfl
    have isRac : state.rac = ⟨ofNat here, 0, 0⟩ := by
      show (⟨state.rac.index, state.rac.nrPages, state.rac.batchCount⟩ : ReadaheadControl) = _
      rw [zero, batch, ← here_eq, UInt64.ofNat_toNat]
    refine (skip state isRac).mono fun _ after skipped => ?_
    obtain ⟨sameCache, sameOffered, final⟩ := skipped
    rw [sameCache, sameOffered]
    refine ⟨rfl, rfl, sound, final, ?_⟩
    rw [addSpan, if_neg (not_lt.mpr here_eq.ge)]

end Batch

/-! ### The loop -/

/-- The indices without a page. -/
def PageCache.uncached (cache : PageCache) : Set Nat :=
  {index | cache.iPages (UInt64.ofNat index) = none}

instance (cache : PageCache) : DecidablePred (· ∈ cache.uncached) := fun index =>
  inferInstanceAs (Decidable (cache.iPages (UInt64.ofNat index) = none))

/-- How many indices of a range have no page. -/
def PageCache.missing (cache : PageCache) (lo hi : Nat) : Nat :=
  ((Finset.Ico lo hi).filter (· ∈ cache.uncached)).card

theorem PageCache.missing_succ (cache : PageCache) {lo hi : Nat} (ordered : lo ≤ hi) :
    cache.missing lo (hi + 1) = cache.missing lo hi + if hi ∈ cache.uncached then 1 else 0 := by
  rw [missing, missing, Nat.Ico_succ_right_eq_insert_Ico ordered, Finset.filter_insert]
  split
  · rw [Finset.card_insert_of_notMem]
    intro member
    exact absurd (Finset.mem_Ico.mp (mem_filter.mp member).1).2 (lt_irrefl hi)
  · rfl

theorem PageCache.missing_eq_ncard (cache : PageCache) (lo hi : Nat) :
    cache.missing lo hi = {page | lo ≤ page ∧ page < hi ∧ page ∈ cache.uncached}.ncard := by
  rw [missing, ← Set.ncard_coe_finset]
  refine congrArg Set.ncard (Set.ext fun page => ?_)
  rw [Finset.mem_coe, Finset.mem_filter, Finset.mem_Ico, and_assoc]
  exact Iff.rfl

/-- The loop has come to an index: the gaps before it are filled, and the batches are given to the
method up to the pending one. -/
structure Filling (start : PageCache) (lo here : Nat) (state : Reading) : Prop
    extends Pending here state where
  scanned : Scanned start.uncached lo state.rac.index.toNat here (state.offered.map batchSpan)
  filled : ∀ index : UInt64, lo ≤ index.toNat → index.toNat < here → state.cache.iPages index ≠ none
  same : ∀ index : UInt64, ¬ (lo ≤ index.toNat ∧ index.toNat < here ∧
    start.iPages index = none) → state.cache.iPages index = start.iPages index
  supply : state.cache.free.length + start.missing lo here = start.free.length

section Loop

variable {start : PageCache} {state : Reading} {lo here : Nat}

namespace Filling

variable (filling : Filling start lo here state)

include filling

theorem cachedHere (fits : here < 2 ^ 64) :
    state.cache.iPages (UInt64.ofNat here) = start.iPages (UInt64.ofNat here) := by
  refine filling.same _ fun inside => ?_
  rw [toNat_ofNat', mod_eq_of_lt fits] at inside
  exact absurd inside.2.1 (lt_irrefl here)

/-- At an index with a page, the pending batch is read. -/
theorem skip (fits : here + 1 < 2 ^ 64) (cached : here ∉ start.uncached) (method : ReadaheadMethod)
    : Returns (readPages method true) state fun _ after => Filling start lo (here + 1) after := by
  refine (filling.toPending.readPages method true fits).mono
    fun _ after ⟨samePages, sameFree, sound, isRac, offered⟩ => ?_
  have place : after.rac.index.toNat = here + 1 := by
    rw [isRac]
    exact (toNat_ofNat' ..).trans (mod_eq_of_lt fits)
  have low := filling.scanned.low
  have high := filling.scanned.high
  refine ⟨⟨sound, ?_, ?_, fun index above below => ?_⟩, ?_, fun index above below => ?_,
    fun index outside => ?_, ?_⟩
  · rw [isRac]
  · rw [place, isRac]
    rfl
  · rw [place] at above
    exact absurd below (not_lt.mpr above)
  · rw [place, offered]
    exact filling.scanned.flush cached
  · rw [samePages]
    rcases Nat.lt_succ_iff_lt_or_eq.mp below with before | rfl
    · exact filling.filled index above before
    · have same := filling.cachedHere (by omega)
      rw [PageCache.uncached, Set.mem_ofPred_eq, ← same, UInt64.ofNat_toNat] at cached
      exact cached
  · rw [samePages]
    exact filling.same index (by grind)
  · rw [sameFree, start.missing_succ (low.trans high), if_neg cached]
    exact filling.supply

/-- The pending pages are among those that were missing. -/
theorem nrPages_le : state.rac.nrPages.toNat ≤ start.missing lo here := by
  have size : state.rac.nrPages.toNat = (Finset.Ico state.rac.index.toNat here).card := by
    rw [card_Ico]
    have := filling.place
    omega
  rw [size]
  refine Finset.card_le_card fun index member => ?_
  obtain ⟨above, below⟩ := Finset.mem_Ico.mp member
  exact Finset.mem_filter.mpr ⟨Finset.mem_Ico.mpr ⟨filling.scanned.low.trans above, below⟩,
    filling.scanned.collects index above below⟩

/-- At an index without a page, a new one is added at the end of the pending ones. -/
theorem take (fits : here + 1 < 2 ^ 64) (gap : here ∈ start.uncached)
    (few : start.free.length < 2 ^ 32) (page : UInt64) {after : Reading}
    (adds : state.cache.Adds after.cache (UInt64.ofNat here) page)
    (newRac : after.rac = { state.rac with nrPages := state.rac.nrPages + 1 })
    (sameOffered : after.offered = state.offered) : Filling start lo (here + 1) after := by
  obtain ⟨⟨sound, batch, _, cached⟩, scanned, filled, same, supply⟩ := id filling
  have number : (ofNat here).toNat = here :=
    (toNat_ofNat' ..).trans (mod_eq_of_lt (by omega))
  have isHere : ∀ index : UInt64, index.toNat = here → index = ofNat here :=
    fun index same => UInt64.toNat_inj.mp (same.trans number.symm)
  rw [adds.free, length_cons] at supply
  have count : (state.rac.nrPages + 1).toNat = state.rac.nrPages.toNat + 1 := by
    have pending := filling.nrPages_le
    rw [UInt32.toNat_add, UInt32.toNat_one]
    exact mod_eq_of_lt (by omega)
  -- what is cached up to the new page
  have keeps : ∀ index : UInt64, index.toNat < here + 1 → (index.toNat < here →
      state.cache.iPages index ≠ none) → after.cache.iPages index ≠ none := by
    intro index below before
    rw [adds.iPages]
    rcases eq_or_ne index (ofNat here) with rfl | last
    · rw [update_self]
      exact Option.some_ne_none page
    · rw [update_of_ne last]
      exact before (lt_of_le_of_ne (le_of_lt_succ below) fun equal => last (isHere index equal))
  refine ⟨⟨sound.add adds, ?_, ?_, fun index above below => ?_⟩, ?_,
    fun index above below => ?_, fun index outside => ?_, ?_⟩
  · rw [newRac]
    exact batch
  · rw [newRac]
    dsimp only
    omega
  · rw [newRac] at above
    exact keeps index below (cached index above)
  · rw [newRac, sameOffered]
    exact scanned.take gap
  · exact keeps index below (filled index above)
  · have different : index ≠ ofNat here := by
      rintro rfl
      rw [number] at outside
      exact outside ⟨scanned.low.trans scanned.high, lt_succ_self here, gap⟩
    rw [adds.iPages, update_of_ne different]
    exact same index (by grind)
  · rw [start.missing_succ (scanned.low.trans scanned.high), if_pos gap]
    omega

end Filling

/-- One turn of the loop goes on with one more index, or there is a gap and no free page. -/
theorem Filling.turn {method : ReadaheadMethod} {index nrToRead lookaheadSize i : UInt64}
    {left : Nat} (filling : Filling start index.toNat (index.toNat + i.toNat) state)
    (few : start.free.length < 2 ^ 32) (fits : index.toNat + i.toNat + 1 < 2 ^ 64) :
    (∃ after, Filling start index.toNat (index.toNat + i.toNat + 1) after ∧
      readaheadLoop method index nrToRead lookaheadSize (left + 1) i state =
        readaheadLoop method index nrToRead lookaheadSize left (i + 1) after) ∨
    state.cache.free = [] ∧ index.toNat + i.toNat ∈ start.uncached ∧
      readaheadLoop method index nrToRead lookaheadSize (left + 1) i state =
        .error (.panic "out of memory!") := by
  have here : (index + i).toNat = index.toNat + i.toNat := toNat_add_of_lt (by omega)
  have isHere : ofNat (index.toNat + i.toNat) = index + i := by
    rw [← here, UInt64.ofNat_toNat]
  have atHere : index + i = state.rac.index + state.rac.nrPages.toUInt64 := by
    have place := filling.place
    refine UInt64.toNat_inj.mp ?_
    rw [here, toNat_add_of_lt (by rw [UInt32.toNat_toUInt64]; omega), UInt32.toNat_toUInt64, place]
  have sameHere := filling.cachedHere (by omega)
  rw [isHere] at sameHere
  rw [readaheadLoop, get_bind]
  rw [if_neg (not_not.mpr atHere)]
  cases found : state.cache.iPages (index + i) with
  | some page =>
    have cached : index.toNat + i.toNat ∉ start.uncached := by
      intro gap
      rw [PageCache.uncached, Set.mem_ofPred_eq, isHere, ← sameHere, found] at gap
      cases gap
    obtain ⟨_, after, ran, filled⟩ := filling.skip fits cached method
    exact .inl ⟨after, filled, bind_of_ok ran⟩
  | none =>
    have gap : index.toNat + i.toNat ∈ start.uncached := by
      rw [PageCache.uncached, Set.mem_ofPred_eq, isHere, ← sameHere, found]
    cases first : state.cache.free with
    | nil => exact .inr ⟨rfl, gap, rfl⟩
    | cons page free =>
      have idle := filling.sound.idle page (first ▸ mem_cons_self)
      have isAdded : addToPageCacheLru { state.cache with free } page (index + i) = _ :=
        addToPageCacheLru_eq found idle
      dsimp only
      rw [isAdded]
      refine .inl ⟨_, ?_, rfl⟩
      refine filling.take fits gap few page ?_ rfl rfl
      dsimp only
      split
      · exact (adds_added first ..).modifyPage _
      · exact adds_added first ..

/-- The loop fills the gaps of its range, or there are fewer free pages than gaps. -/
theorem Filling.readaheadLoop {method : ReadaheadMethod} {index nrToRead lookaheadSize i : UInt64}
    {left : Nat} (filling : Filling start index.toNat (index.toNat + i.toNat) state)
    (few : start.free.length < 2 ^ 32) (fits : index.toNat + i.toNat + left < 2 ^ 64 - 1) :
    Returns (readaheadLoop method index nrToRead lookaheadSize left i) state
        (fun _ after => Filling start index.toNat (index.toNat + i.toNat + left) after) ∨
      readaheadLoop method index nrToRead lookaheadSize left i state =
        .error (.panic "out of memory!") ∧
      start.free.length < start.missing index.toNat (index.toNat + i.toNat + left) := by
  induction left generalizing i state with
  | zero => exact .inl (returns_pure filling)
  | succ left ih =>
    have next : index.toNat + (i + 1).toNat = index.toNat + i.toNat + 1 := by
      rw [toNat_add_of_lt (by rw [UInt64.toNat_one]; omega)]
      rfl
    have moved : index.toNat + (i + 1).toNat + left = index.toNat + i.toNat + (left + 1) := by omega
    rcases filling.turn few (by omega) with ⟨after, filled, same⟩ | ⟨empty, gap, fails⟩
    · have rest := ih (next ▸ filled) (by omega)
      rw [moved] at rest
      rw [Returns, same]
      exact rest
    · refine .inr ⟨fails, ?_⟩
      have supply := filling.supply
      have one := start.missing_succ (le_add_right index.toNat i.toNat)
      have wider : index.toNat + i.toNat + 1 ≤ index.toNat + i.toNat + (left + 1) := by omega
      have grows : start.missing index.toNat _ ≤ start.missing index.toNat _ :=
        Finset.card_le_card (Finset.filter_subset_filter _ (Finset.Ico_subset_Ico_right wider))
      rw [empty, length_nil] at supply
      rw [if_pos gap] at one
      omega

end Loop

/-! ### Pages in the linear map -/

/-- The macro `PAGE_OFFSET`. -/
def pageOffset : UInt64 := 0xffffffe000000000

/-- The free pages have kernel addresses of their own, in the linear map of the memory. -/
structure PageCache.Linear (cache : PageCache) (vaPaOffset : UInt64) : Prop where
  above : ∀ page ∈ cache.free, pageOffset ≤ pfnToVirt vaPaOffset page
  apart : (cache.free.map (pfnToVirt vaPaOffset)).Nodup

theorem toNat_pfnToVirt_mod (vaPaOffset page : UInt64) :
    (pfnToVirt vaPaOffset page).toNat % 4096 = vaPaOffset.toNat % 4096 := by
  rw [pfnToVirt, UInt64.toNat_add, toNat_shiftLeft_pageShift]
  omega

/-- The linear map has room for less than `2 ^ 32` pages. -/
theorem PageCache.Linear.length_lt {vaPaOffset : UInt64} (linear : cache.Linear vaPaOffset) :
    cache.free.length < 2 ^ 32 := by
  -- the page numbers of the kernel addresses
  let number (page : UInt64) : Nat := (pfnToVirt vaPaOffset page).toNat / 4096
  have apart : (cache.free.map number).Nodup := by
    refine List.Nodup.map_on (fun page member other memberOther same => ?_)
      (List.Nodup.of_map _ linear.apart)
    refine inj_on_of_nodup_map linear.apart member memberOther (UInt64.toNat_inj.mp ?_)
    have mod := toNat_pfnToVirt_mod vaPaOffset page
    have modOther := toNat_pfnToVirt_mod vaPaOffset other
    dsimp only [number] at same
    omega
  have inside : (cache.free.map number).toFinset ⊆ Finset.Ico (2 ^ 52 - 2 ^ 25) (2 ^ 52) := by
    intro value member
    obtain ⟨page, isFree, rfl⟩ := mem_map.mp (mem_toFinset.mp member)
    have above := le_iff_toNat_le.mp (linear.above page isFree)
    have below := (pfnToVirt vaPaOffset page).toNat_lt
    rw [show pageOffset.toNat = 2 ^ 64 - 2 ^ 37 from rfl] at above
    refine Finset.mem_Ico.mpr ?_
    dsimp only [number]
    omega
  have size := Finset.card_le_card inside
  rw [toFinset_card_of_nodup apart, length_map, card_Ico] at size
  omega

/-! ### The pages of the file -/

/-- The pages that read-ahead has to offer: those of its range that are not cached, up to the last
page of the file. -/
def PageCache.due (cache : PageCache) (isize : FileSize) (index nrToRead : UInt64) : Set Nat :=
  {page | index.toNat ≤ page ∧ page < index.toNat + nrToRead.toNat ∧
    page * 4096 < isize.bytes.toNat ∧ page ∈ cache.uncached}

/-- The batches are the maximal contiguous ranges of some pages, in ascending order. These pages
are cached afterwards, and nothing else changes. -/
structure Reading.Offers (after : Reading) (cache : PageCache) (pages : Set Nat) : Prop where
  ascending : Normal (after.offered.map batchSpan)
  maximal : ∀ span, span ∈ after.offered.map batchSpan ↔ IsMaximal pages span
  filled : ∀ page : UInt64, page.toNat ∈ pages → after.cache.iPages page ≠ none
  same : ∀ page : UInt64, page.toNat ∉ pages → after.cache.iPages page = cache.iPages page

/-- `page_cache_readahead_unbounded` offers what is missing in its range. -/
theorem pageCacheReadaheadUnbounded_offers {method : ReadaheadMethod}
    {index nrToRead lookaheadSize : UInt64} (sound : cache.Sound) (few : cache.free.length < 2 ^ 32)
    (fits : index.toNat + nrToRead.toNat < 2 ^ 64 - 1) :
    match pageCacheReadaheadUnbounded method cache index nrToRead lookaheadSize with
    | .ok after => after.Offers cache {page | index.toNat ≤ page ∧
        page < index.toNat + nrToRead.toNat ∧ page ∈ cache.uncached}
    | .error fault => fault = .panic "out of memory!" ∧
      cache.free.length < cache.missing index.toNat (index.toNat + nrToRead.toNat) := by
  have begins : Filling cache index.toNat (index.toNat + (0 : UInt64).toNat)
      ⟨cache, ⟨index, 0, 0⟩, []⟩ := by
    refine ⟨⟨sound, rfl, rfl, fun page above below => absurd below (not_lt.mpr above)⟩,
      Scanned.start _ _, fun page above below => absurd below (not_lt.mpr above),
      fun page outside => rfl, ?_⟩
    rw [PageCache.missing]
    simp
  have high : index.toNat + (0 : UInt64).toNat + nrToRead.toNat + 1 < 2 ^ 64 :=
    add_lt_of_lt_sub fits
  unfold pageCacheReadaheadUnbounded StateT.run
  rcases begins.readaheadLoop few fits with ⟨_, _, loops, filling⟩ | ⟨fails, short⟩
  · obtain ⟨_, after, reads, samePages, _, _, _, offered⟩ :=
      filling.toPending.readPages method false high
    rw [bind_of_ok loops, reads]
    refine ⟨?_, fun span => ?_, fun page inside => ?_, fun page outside => ?_⟩
    · exact offered ▸ filling.scanned.normal_addSpan
    · exact offered ▸ filling.scanned.mem_iff_isMaximal span
    · exact samePages ▸ filling.filled page inside.1 inside.2.1
    · rw [samePages]
      refine filling.same page fun ⟨above, below, absent⟩ => outside ⟨above, below, ?_⟩
      rw [PageCache.uncached, Set.mem_ofPred_eq, UInt64.ofNat_toNat]
      exact absent
  · rw [bind_of_error fails]
    exact ⟨rfl, short⟩

/-- The last page of a file that is not empty. -/
theorem FileSize.le_endIndex_iff (isize : FileSize) (filled : isize.bytes ≠ 0) (page : Nat) :
    page ≤ ((isize.bytes - 1) >>> pageShift).toNat ↔ page * 4096 < isize.bytes.toNat := by
  have positive : 0 < isize.bytes.toNat :=
    pos_of_ne_zero fun zero => filled (UInt64.toNat_inj.mp zero)
  have less : (isize.bytes - 1).toNat = isize.bytes.toNat - 1 := toNat_sub_of_toNat_le positive
  rw [toNat_pageIndex, le_div_iff_mul_le (by decide)]
  omega

/-- Where nothing is due, nothing is done. -/
theorem Reading.Offers.nothing {pages : Set Nat} {index : UInt64} (none : ∀ page, page ∉ pages) :
    Reading.Offers ⟨cache, ⟨index, 0, 0⟩, []⟩ cache pages where
  ascending := Normal.nil
  maximal span := iff_of_false not_mem_nil fun maximal =>
    none span.lo (maximal.subset ⟨le_rfl, maximal.filled⟩)
  filled page inside := absurd inside (none page.toNat)
  same _ _ := rfl

/-- The range that is left when the pages after the end of the file are cut off. -/
theorem due_eq_clamped {isize : FileSize} {index nrToRead endIndex : UInt64}
    (last : ∀ page, page ≤ endIndex.toNat ↔ page * 4096 < isize.bytes.toNat)
    (inside : index.toNat ≤ endIndex.toNat) (small : endIndex.toNat < 2 ^ 64 - 2) :
    let clamped := if nrToRead > endIndex - index then endIndex - index + 1 else nrToRead
    index.toNat + clamped.toNat < 2 ^ 64 - 1 ∧
    cache.due isize index nrToRead = {page | index.toNat ≤ page ∧
      page < index.toNat + clamped.toNat ∧ page ∈ cache.uncached} := by
  intro clamped
  have less : (endIndex - index).toNat = endIndex.toNat - index.toNat :=
    toNat_sub_of_toNat_le inside
  have more : (endIndex - index + 1).toNat = endIndex.toNat - index.toNat + 1 := by
    rw [toNat_add_of_lt (by rw [UInt64.toNat_one]; omega), less, UInt64.toNat_one]
  have number : clamped.toNat = min nrToRead.toNat (endIndex.toNat - index.toNat + 1) := by
    dsimp only [clamped]
    split_ifs with long
    · have := lt_iff_toNat_lt.mp long
      omega
    · have := le_iff_toNat_le.mp (UInt64.not_lt.mp long)
      omega
  refine ⟨by omega, Set.ext fun page => and_congr_right fun _ => ?_⟩
  rw [← and_assoc, ← last page]
  refine and_congr_left fun _ => ?_
  omega

/-- `__do_page_cache_readahead` offers the pages that are due, or there are too few free pages. -/
theorem doPageCacheReadahead_cases (method : ReadaheadMethod) (isize : FileSize)
    (cache : PageCache) (index nrToRead lookaheadSize : UInt64) (sound : cache.Sound)
    (few : cache.free.length < 2 ^ 32) :
    match doPageCacheReadahead method isize cache index nrToRead lookaheadSize with
    | .ok after => after.Offers cache (cache.due isize index nrToRead)
    | .error fault => fault = .panic "out of memory!" ∧
      cache.free.length < (cache.due isize index nrToRead).ncard := by
  rw [doPageCacheReadahead]
  split_ifs with empty
  · refine Reading.Offers.nothing fun page due => ?_
    have before := due.2.2.1
    rw [empty] at before
    cases before
  · have last := isize.le_endIndex_iff empty
    by_cases beyond : index > (isize.bytes - 1) >>> pageShift
    · rw [if_pos beyond]
      refine Reading.Offers.nothing fun page due => ?_
      have before := (last page).mpr due.2.2.1
      exact absurd (due.1.trans before) (not_le.mpr (lt_iff_toNat_lt.mp beyond))
    · have small : ((isize.bytes - 1) >>> pageShift).toNat < 2 ^ 64 - 2 := by
        have bound := (last _).mp le_rfl
        have size := isize.positive
        omega
      obtain ⟨fits, same⟩ := @due_eq_clamped cache isize index nrToRead _ last
        (le_iff_toNat_le.mp (UInt64.not_lt.mp beyond)) small
      rw [if_neg beyond, same, ← PageCache.missing_eq_ncard]
      exact pageCacheReadaheadUnbounded_offers sound few fits

end Xlinux
