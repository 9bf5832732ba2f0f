/-
This file follows the pages of a file through read-ahead: a page that is cached
stays at its index, a page that is up to date shows the bytes of the file, and
of the new pages the one at the look-ahead distance from the end is marked.
-/

import Xlinux.Cache.Readahead

namespace Xlinux

open Hoare Function

/-! ### Files -/

/-- A regular file: its size and its bytes. -/
structure RegularFile where
  isize : FileSize
  bytes : Nat → UInt8

/-- If the page is up to date, it shows the bytes of the file at its index. -/
def FilePage.Shows (file : RegularFile) (fields : FilePage) : Prop :=
  fields.uptodate = true → ∀ offset, offset < 4096 →
    fields.index.toNat * 4096 + offset < file.isize.bytes.toNat →
    fields.data offset = file.bytes (fields.index.toNat * 4096 + offset)

/-- The method leaves a page at its index and reads nothing else than the file into it. -/
structure ReadaheadMethod.Reads (method : ReadaheadMethod) (file : RegularFile) : Prop where
  index : ∀ page fields, (method.read page fields).index = fields.index
  readahead : ∀ page fields, (method.read page fields).readahead = fields.readahead
  active : ∀ page fields, (method.read page fields).active = fields.active
  shows : ∀ page fields, fields.Shows file → (method.read page fields).Shows file

/-- The cached pages are where they say they are and show the file. The free pages are blank. -/
structure PageCache.Filed (cache : PageCache) (file : RegularFile) : Prop extends cache.Sound where
  placed : ∀ index page, cache.iPages index = some page → (cache.pages page).index = index
  shows : ∀ index page, cache.iPages index = some page → (cache.pages page).Shows file
  unread : ∀ page ∈ cache.free, (cache.pages page).uptodate = false
  unmarked : ∀ page ∈ cache.free, (cache.pages page).readahead = false

variable {file : RegularFile} {cache start : PageCache}

/-- A change of a cached page that leaves it at its index. -/
theorem PageCache.Filed.modifyPage (filed : cache.Filed file) {index page : UInt64}
    (cached : cache.iPages index = some page) {change : FilePage → FilePage}
    (stays : (change (cache.pages page)).index = (cache.pages page).index)
    (shown : (change (cache.pages page)).Shows file) :
    (cache.modifyPage page change).Filed file := by
  have notFree : ∀ other ∈ cache.free, other ≠ page :=
    fun other member same => filed.fresh index page cached (same ▸ member)
  refine ⟨filed.toSound.modifyPage cached change, fun place other found => ?_,
    fun place other found => ?_, fun other member => ?_, fun other member => ?_⟩
  · by_cases same : other = page
    · rw [same, cache.modifyPage_self, stays]
      exact filed.placed place page (same ▸ found)
    · rw [cache.modifyPage_other same]
      exact filed.placed place other found
  · by_cases same : other = page
    · rw [same, cache.modifyPage_self]
      exact shown
    · rw [cache.modifyPage_other same]
      exact filed.shows place other found
  · rw [cache.modifyPage_other (notFree other member)]
    exact filed.unread other member
  · rw [cache.modifyPage_other (notFree other member)]
    exact filed.unmarked other member

/-- A new page at its index. -/
theorem PageCache.Filed.add (filed : cache.Filed file) {index page : UInt64} {after : PageCache}
    (adds : cache.Adds after index page) (newIndex : (after.pages page).index = index)
    (notRead : (after.pages page).uptodate = (cache.pages page).uptodate) : after.Filed file := by
  have isFree : page ∈ cache.free := adds.free ▸ List.mem_cons_self
  refine ⟨filed.toSound.add adds, fun place other found => ?_, fun place other found => ?_,
    fun other inside => ?_, fun other inside => ?_⟩
  · rcases filed.cached_cases adds found with ⟨here, same⟩ | ⟨different, before⟩
    · rw [same, here]
      exact newIndex
    · rw [adds.others other different]
      exact filed.placed place other before
  · rcases filed.cached_cases adds found with ⟨_, same⟩ | ⟨different, before⟩
    · intro read
      rw [same, notRead, filed.unread page isFree] at read
      cases read
    · rw [adds.others other different]
      exact filed.shows place other before
  · obtain ⟨different, wasFree⟩ := filed.free_cases adds inside
    rw [adds.others other different]
    exact filed.unread other wasFree
  · obtain ⟨different, wasFree⟩ := filed.free_cases adds inside
    rw [adds.others other different]
    exact filed.unmarked other wasFree

/-! ### Read-ahead -/

/-- The cache while read-ahead fills it from an index on: of the new pages the one at the marked
distance has `PG_readahead`. -/
structure Furnished (file : RegularFile) (start : PageCache) (lo distance : UInt64)
    (cache : PageCache) : Prop extends cache.Filed file where
  marked : ∀ index page, start.iPages index = none → cache.iPages index = some page →
    (cache.pages page).readahead = decide (index - lo = distance)

section Readahead

variable {method : ReadaheadMethod} {lo distance : UInt64} {state : Reading}
variable {index nrToRead lookaheadSize : UInt64}

theorem ensures_readaheadPage : Ensures readaheadPage state fun page after =>
    after.cache = state.cache ∧ ∀ found, page = some found →
      ∃ index, state.cache.iPages index = some found := by
  rw [readaheadPage]
  refine ensures_get ?_
  dsimp only
  split
  · exact ensures_throw
  · split
    · rintro _ _ ⟨⟩
      exact ⟨rfl, by simp⟩
    · rintro _ _ ⟨⟩
      exact ⟨rfl, fun found isFound => ⟨_, isFound⟩⟩

theorem ensures_cleanUp (turns : Nat) : Ensures (cleanUp turns) state
    fun _ after => after.cache = state.cache := by
  induction turns generalizing state with
  | zero => exact ensures_throw
  | succ turns ih =>
    rw [cleanUp]
    refine ensures_readaheadPage.bind fun page after ran => ?_
    cases page with
    | none => exact ensures_pure ran.1
    | some page => exact ih.mono fun _ _ next => next.trans ran.1

/-- A new page, marked if it is at the distance. -/
theorem Furnished.add (furnished : Furnished file start lo distance cache) {i page : UInt64}
    {after : PageCache} (adds : cache.Adds after (lo + i) page)
    (newIndex : (after.pages page).index = lo + i)
    (notRead : (after.pages page).uptodate = (cache.pages page).uptodate)
    (mark : (after.pages page).readahead = decide (i = distance)) :
    Furnished file start lo distance after := by
  refine ⟨furnished.toFiled.add adds newIndex notRead, fun place other absent found => ?_⟩
  rcases furnished.cached_cases adds found with ⟨here, same⟩ | ⟨different, before⟩
  · rw [same, here, mark, UInt64.add_comm, UInt64.add_sub_cancel]
  · rw [adds.others other different]
    exact furnished.marked place other absent before

/-- A cache that nothing was added to. -/
theorem PageCache.Filed.furnished (filed : cache.Filed file) (lo distance : UInt64) :
    Furnished file cache lo distance cache :=
  ⟨filed, fun _ _ absent found => nomatch absent.symm.trans found⟩

variable (reads : method.Reads file)

include reads

/-- What the method does with a page. -/
theorem Furnished.read (furnished : Furnished file start lo distance cache) {page : UInt64}
    (cached : cache.iPages index = some page) :
    Furnished file start lo distance (cache.modifyPage page (method.read page)) := by
  refine ⟨furnished.toFiled.modifyPage cached (reads.index ..)
    (reads.shows _ _ (furnished.shows index page cached)), fun place other absent found => ?_⟩
  have before := furnished.marked place other absent found
  by_cases same : other = page
  · rw [same] at before ⊢
    rw [cache.modifyPage_self, reads.readahead]
    exact before
  · rw [cache.modifyPage_other same]
    exact before

theorem Furnished.callMethod (furnished : Furnished file start lo distance state.cache)
    (calls : Nat) : Ensures (callMethod method calls) state
      fun _ after => Furnished file start lo distance after.cache := by
  induction calls generalizing state with
  | zero => exact ensures_pure furnished
  | succ calls ih =>
    rw [callMethod]
    refine ensures_readaheadPage.bind fun page after ran => ?_
    obtain ⟨same, isCached⟩ := ran
    have kept : Furnished file start lo distance after.cache := same ▸ furnished
    cases page with
    | none => exact ih kept
    | some page =>
      obtain ⟨_, cached⟩ := isCached page rfl
      exact ensures_modify (ih (kept.read reads (same ▸ cached)))

theorem Furnished.readPages (furnished : Furnished file start lo distance state.cache)
    (skipPage : Bool) : Ensures (readPages method skipPage) state
      fun _ after => Furnished file start lo distance after.cache := by
  have skip : ∀ next : Reading, Furnished file start lo distance next.cache →
      Ensures (if skipPage = true then modify fun state : Reading =>
          { state with rac := { state.rac with index := state.rac.index + 1 } }
        else pure PUnit.unit : Readahead PUnit) next fun _ after =>
          Furnished file start lo distance after.cache := by
    intro next kept
    cases skipPage with
    | false => exact ensures_pure kept
    | true => exact ensures_modify_last kept
  rw [Xlinux.readPages]
  refine ensures_get ?_
  dsimp only
  split
  · have logged : Furnished file start lo distance { state with
        offered := state.offered ++ [(state.rac.index, state.rac.nrPages)] }.cache := furnished
    refine ensures_modify ?_
    refine (logged.callMethod reads _).bind fun _ between kept => ?_
    refine (ensures_cleanUp _).bind fun _ cleaned same => ensures_get ?_
    split
    · exact ensures_throw
    · exact skip cleaned (same ▸ kept)
  · exact skip state furnished

theorem Furnished.readaheadLoop {i : UInt64} {left : Nat}
    (furnished : Furnished file start index (nrToRead - lookaheadSize) state.cache) :
    Ensures (readaheadLoop method index nrToRead lookaheadSize left i) state
      fun _ after => Furnished file start index (nrToRead - lookaheadSize) after.cache := by
  induction left generalizing i state with
  | zero => exact ensures_pure furnished
  | succ left ih =>
    rw [readaheadLoop]
    refine ensures_get ?_
    dsimp only
    split
    · exact ensures_throw
    · cases found : state.cache.iPages (index + i) with
      | some page =>
        exact (furnished.readPages reads true).bind fun _ after kept => ih kept
      | none =>
        cases first : state.cache.free with
        | nil => exact ensures_throw
        | cons page free =>
          have isFree : page ∈ state.cache.free := first ▸ List.mem_cons_self
          have isAdded : addToPageCacheLru { state.cache with free } page (index + i) = _ :=
            addToPageCacheLru_eq found (furnished.idle page isFree)
          have unmarked := furnished.unmarked page isFree
          dsimp only
          rw [isAdded]
          refine ensures_lift fun cache isCache => ?_
          cases isCache
          refine ih ?_
          split_ifs with marks
          · dsimp only
            refine furnished.add ((adds_added first _ _ _).modifyPage _) ?_ ?_ ?_
            · simp
            · simp
            · simp [marks]
          · refine furnished.add (adds_added first _ _ _) ?_ ?_ ?_
            · simp
            · simp
            · simpa [marks] using unmarked

theorem PageCache.Filed.pageCacheReadaheadUnbounded (filed : cache.Filed file) {after : Reading}
    (ran : pageCacheReadaheadUnbounded method cache index nrToRead lookaheadSize = .ok after) :
    Furnished file cache index (nrToRead - lookaheadSize) after.cache := by
  rw [Xlinux.pageCacheReadaheadUnbounded] at ran
  obtain ⟨⟨_, _⟩, ends, isLast⟩ := Kernel.bind_ok.mp ran
  cases isLast
  have begins := filed.furnished index (nrToRead - lookaheadSize)
  have whole : Ensures (do
      readaheadLoop method index nrToRead lookaheadSize nrToRead.toNat 0
      readPages method false : Readahead Unit) ⟨cache, ⟨index, 0, 0⟩, []⟩ fun _ after =>
        Furnished file cache index (nrToRead - lookaheadSize) after.cache :=
    (Furnished.readaheadLoop reads begins).bind fun _ _ kept => kept.readPages reads false
  exact whole _ _ ends

/-- The number of pages that `__do_page_cache_readahead` reads of a file that is not empty. -/
def clampToFile (isize : FileSize) (index nrToRead : UInt64) : UInt64 :=
  let endIndex := (isize.bytes - 1) >>> pageShift
  if nrToRead > endIndex - index then endIndex - index + 1 else nrToRead

theorem PageCache.Filed.doPageCacheReadahead (filed : cache.Filed file) {after : Reading}
    (ran : doPageCacheReadahead method file.isize cache index nrToRead lookaheadSize = .ok after) :
    Furnished file cache index (clampToFile file.isize index nrToRead - lookaheadSize)
      after.cache := by
  rw [Xlinux.doPageCacheReadahead] at ran
  dsimp only at ran
  split at ran
  · cases ran
    exact filed.furnished _ _
  · split at ran
    · cases ran
      exact filed.furnished _ _
    · exact filed.pageCacheReadaheadUnbounded reads ran

end Readahead

end Xlinux
