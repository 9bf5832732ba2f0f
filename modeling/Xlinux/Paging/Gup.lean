/-
This file models `__get_user_pages` of `gup/gup.c`: it walks the page tables of a
process for one page after the other. How far it goes on after a page is computed
from the number of the page, without the mask that would make it one page: it
goes on by as many pages as are left to the next multiple of `2 ^ 32`.
-/

import Xlinux.Paging.Tables
import Xlinux.Mmap.Find
import Xlinux.Exec.Strings

namespace Xlinux

open PageTree RedBlack
open Function (update)

/-! ### The code -/

/-- `pte_present` and `pmd_present`. -/
def entryPresent (entry : UInt64) : Bool := entry &&& (pagePresent ||| pageProtNone) ≠ 0

/-- `follow_page_mask`: the frame number of the page, if there are tables for the address. -/
def followPage (vaPaOffset pgd : UInt64) (word : UInt64 → UInt64) (address : UInt64) :
    Kernel (Option UInt64) :=
  let pgdp := pgd + 8 * pgdIndex address
  if word pgdp = 0 then .ok none
  else
    let pmd := pageVaddr vaPaOffset (word pgdp) + 8 * pmdIndex address
    if word pmd = 0 then .ok none
    else if !entryPresent (word pmd) then .error (.panic "pmd not present!")
    else
      let pte := word (pageVaddr vaPaOffset (word pmd) + 8 * pteIndex address)
      if !entryPresent pte then .error (.panic "pte NOT present!") else .ok (some (ptePfn pte))

/-- What `__get_user_pages` reads: the process, where its tables are, the function behind
`handle_mm_fault`, and what a variable of `find_vma` holds. -/
structure GupEnv where
  mm : MmStruct
  vaPaOffset : UInt64
  pgd : UInt64
  handleMmFault : UInt64 → UInt64 → (UInt64 → UInt64) → Kernel (UInt64 → UInt64)
  uninitialized : UInt64

/-- The variables of `__get_user_pages`, with the memory. -/
structure GupState where
  word : UInt64 → UInt64
  vma : UInt64
  start : UInt64
  nrPages : UInt64
  i : UInt64
  pages : UInt64 → UInt64

/-- The area of an address, which is looked up at the first one and behind an area. -/
def gupVma (env : GupEnv) (vma start : UInt64) : Kernel UInt64 := do
  if vma = 0 ∨ start ≥ (env.mm.areas vma).vmEnd then
    let vma ← findExtendVma env.uninitialized env.mm start
    if vma = 0 then throw (.panic "find error!")
    return vma
  else return vma

/-- The number of pages that are gone on by, before it is bounded. -/
def pageIncrem (start : UInt64) : UInt32 := (1 + ~~~(start >>> pageShift)).toUInt32

/-- The end of a turn, from the label `next_page` on. -/
def GupState.nextPage (state : GupState) : GupState :=
  let increm := min (pageIncrem state.start).toUInt64 state.nrPages
  { state with
    i := state.i + increm
    start := state.start + increm * pageSize
    nrPages := state.nrPages - increm }

/-- The loop of `__get_user_pages`; a fault that was handled is another turn. -/
def getUserPagesLoop (env : GupEnv) : Nat → GupState → Kernel (UInt64 × (UInt64 → UInt64))
  | 0, _ => .error .endless
  | turns + 1, state => do
    let vma ← gupVma env state.vma state.start
    match ← followPage env.vaPaOffset env.pgd state.word state.start with
    | none =>
      let word ← env.handleMmFault vma state.start state.word
      getUserPagesLoop env turns { state with vma, word }
    | some page =>
      let next := GupState.nextPage { state with vma, pages := update state.pages state.i page }
      if next.nrPages = 0 then return (next.i, next.pages)
      getUserPagesLoop env turns next

/-- `__get_user_pages` with an array for the pages. -/
def getUserPages (env : GupEnv) (turns : Nat) (word : UInt64 → UInt64) (start nrPages : UInt64)
    (pages : UInt64 → UInt64) : Kernel (UInt64 × (UInt64 → UInt64)) :=
  if nrPages = 0 then .ok (0, pages)
  else getUserPagesLoop env turns ⟨word, 0, start, nrPages, 0, pages⟩

/-! ### One turn -/

theorem toNat_pageIncrem (start : UInt64) :
    (pageIncrem start).toNat = (2 ^ 64 - start.toNat / 4096) % 2 ^ 32 := by
  have number := toNat_pageIndex start
  have bound := start.toNat_lt
  rw [pageIncrem, UInt64.toNat_toUInt32, UInt64.toNat_add, UInt64.toNat_not,
    UInt64.toNat_one, UInt64.size]
  omega

/-- The pages that are gone on by lead to a multiple of `2 ^ 32` pages. -/
theorem pageIncrem_add (start : UInt64) :
    pageIncrem (start + (pageIncrem start).toUInt64 * pageSize) = 0 := by
  refine UInt32.toNat_inj.mp ?_
  have size : pageSize.toNat = 4096 := rfl
  have bound := start.toNat_lt
  rw [toNat_pageIncrem, UInt64.toNat_add, UInt64.toNat_mul, size, UInt32.toNat_toUInt64,
    toNat_pageIncrem, UInt32.toNat_zero]
  omega

/-- The page of an address is in an area, and the tables map it to a frame. -/
structure PagePresent (env : GupEnv) (word : UInt64 → UInt64) (areas : List UInt64)
    (address frame : UInt64) : Prop where
  inside : ∃ vma ∈ areas, (env.mm.areas vma).vmStart ≤ address &&& pageMask ∧
    address < (env.mm.areas vma).vmEnd
  mapped : ∃ pgdPfn entry, env.pgd = pfnToVirt env.vaPaOffset pgdPfn ∧
    find (tableLayout env.vaPaOffset) word (frameOf pgdPfn) (indices address) = some (entry, []) ∧
    entryPresent entry = true ∧ ptePfn entry = frame

section Turn

variable {env : GupEnv} {word : UInt64 → UInt64} {tree : MaxTree} {address frame other : UInt64}

/-- An address that finds an entry of the last level goes through a table. -/
theorem child_of_find {vaPaOffset entry : UInt64} {root : Fin (2 ^ 52)} {index second : Fin 512}
    {rest : List (Fin 512)}
    (found : find (tableLayout vaPaOffset) word root (index :: second :: rest) = some (entry, [])) :
    ∃ next, (tableLayout vaPaOffset).child (word ((tableLayout vaPaOffset).cell root index)) =
      some next ∧ find (tableLayout vaPaOffset) word next (second :: rest) = some (entry, []) := by
  rw [find] at found
  split at found
  next next child => exact ⟨next, child, found⟩
  next =>
    have same := congrArg Prod.snd (Option.some.inj (Option.ite_none_left_eq_some.mp found).2)
    cases same

/-- An entry that leads to a table is present. -/
theorem entryPresent_of_child {vaPaOffset entry : UInt64} {next : Fin (2 ^ 52)}
    (child : (tableLayout vaPaOffset).child entry = some next) :
    entry ≠ 0 ∧ entryPresent entry = true := by
  have leads : entry &&& leafMask = pagePresent := (Option.ite_none_right_eq_some.mp child).1
  have bit := congrArg (· &&& pagePresent) leads
  simp only [UInt64.and_assoc] at bit
  have set : entry &&& pagePresent ≠ 0 := fun zero => absurd (zero.symm.trans bit) (by decide)
  refine ⟨fun zero => set (by rw [zero, UInt64.zero_and]), decide_eq_true fun none => set ?_⟩
  have masked := congrArg (· &&& pagePresent) none
  simp only [UInt64.and_assoc] at masked
  exact masked

/-- The walk ends at the entry of a page that is mapped. -/
theorem PagePresent.followPage (present : PagePresent env word tree.labels address frame) :
    Xlinux.followPage env.vaPaOffset env.pgd word address = .ok (some frame) := by
  obtain ⟨pgdPfn, entry, pgd, found, here, same⟩ := present.mapped
  have inside : (pgdIndex address).toNat < 512 :=
    toNat_tableIndex (by decide : pgdirShift < 64) address ▸ Nat.mod_lt _ (by decide)
  obtain ⟨_, first, found⟩ := child_of_find found
  obtain ⟨_, second, found⟩ := child_of_find found
  have ends := congrArg Prod.fst (Option.some.inj (Option.ite_none_left_eq_some.mp found).2)
  dsimp only at ends
  rw [Xlinux.followPage, pgd, pfnToVirt_add pgdPfn inside]
  dsimp only
  rw [if_neg (entryPresent_of_child first).1, pmdIndex,
    pageVaddr_add first (by decide : pmdShift < 64) address, ← pmdIndex,
    if_neg (entryPresent_of_child second).1, (entryPresent_of_child second).2, pteIndex,
    pageVaddr_add second (by decide : 12 < 64) address, ← pteIndex, ends, here, same]
  rfl

variable (represents : Represents ⟨env.mm.nodes, env.mm.mmRb⟩ tree)
  (sorted : env.mm.areas.Sorted tree.labels) (state : GupState)

include represents sorted

/-- The area of a page that is in one is found. -/
theorem PagePresent.gupVma
    (present : PagePresent env word tree.labels address frame) (vma : UInt64) :
    ∃ found, Xlinux.gupVma env vma address = .ok found := by
  rw [Xlinux.gupVma]
  split_ifs
  · obtain ⟨area, member, low, high⟩ := present.inside
    have masked : address &&& pageMask ≤ address := by
      exact Nat.and_le_left
    have found : firstAbove env.mm.areas (address &&& pageMask) tree.labels = some area := by
      obtain ⟨_, _, split⟩ := List.append_of_mem member
      rw [split] at sorted ⊢
      rw [firstAbove_append, sorted.none_before low,
        firstAbove_cons_of_lt (UInt64.lt_of_le_of_lt masked high)]
      rfl
    have nonzero : area ≠ 0 := by
      obtain ⟨_, _, _, _, _, rfl⟩ := exists_fill_of_mem_labels member
      exact represents.at_place.ne
    refine ⟨area, ?_⟩
    rw [findExtendVma, represents.findVma sorted, found]
    simp only [Kernel.ok_bind, Option.getD, if_neg nonzero, if_pos low]
    exact if_neg nonzero
  · exact ⟨vma, rfl⟩

variable (present : PagePresent env state.word tree.labels state.start frame)

include present

/-- A turn for a page that is mapped. -/
theorem getUserPagesLoop_succ (turns : Nat) :
    ∃ vma, getUserPagesLoop env (turns + 1) state =
      let next := GupState.nextPage { state with vma, pages := update state.pages state.i frame }
      if next.nrPages = 0 then .ok (next.i, next.pages) else getUserPagesLoop env turns next := by
  obtain ⟨vma, found⟩ := PagePresent.gupVma represents sorted present state.vma
  refine ⟨vma, ?_⟩
  rw [getUserPagesLoop, found, present.followPage]
  rfl

/-- The loop ends where the pages that are gone on by are as many as are left. -/
theorem getUserPagesLoop_ends
    (all : state.nrPages ≤ (pageIncrem state.start).toUInt64) (turns : Nat) :
    getUserPagesLoop env (turns + 1) state =
      .ok (state.i + state.nrPages, update state.pages state.i frame) := by
  obtain ⟨_, ran⟩ := getUserPagesLoop_succ represents sorted state present turns
  have bounded : min (pageIncrem state.start).toUInt64 state.nrPages = state.nrPages :=
    ite_eq_right_iff.mpr fun le => UInt64.le_antisymm le all
  rw [ran, GupState.nextPage]
  rw [bounded, if_pos (sub_self _)]

/-- At a multiple of `2 ^ 32` pages the loop stays where it is. -/
theorem getUserPagesLoop_endless (left : state.nrPages ≠ 0) (stays : pageIncrem state.start = 0)
    (turns : Nat) : getUserPagesLoop env turns state = .error .endless := by
  induction turns generalizing state with
  | zero => rfl
  | succ turns ih =>
    obtain ⟨_, ran⟩ := getUserPagesLoop_succ represents sorted state present turns
    have none : min (pageIncrem state.start).toUInt64 state.nrPages = 0 := by
      rw [stays]
      exact if_pos UInt64.zero_le
    rw [ran, GupState.nextPage]
    rw [none, sub_zero, if_neg left]
    refine ih _ ?_ left ?_
    · rwa [zero_mul, add_zero]
    · rwa [zero_mul, add_zero]

/-- Behind the first page the loop comes to such a multiple, when it does not end there. -/
theorem getUserPagesLoop_passes (few : (pageIncrem state.start).toUInt64 < state.nrPages)
    (behind : PagePresent env state.word tree.labels
      (state.start + (pageIncrem state.start).toUInt64 * pageSize) other) (turns : Nat) :
    getUserPagesLoop env (turns + 1) state = .error .endless := by
  obtain ⟨_, ran⟩ := getUserPagesLoop_succ represents sorted state present turns
  have bounded : min (pageIncrem state.start).toUInt64 state.nrPages =
      (pageIncrem state.start).toUInt64 := if_pos (UInt64.le_of_lt few)
  have left : state.nrPages - (pageIncrem state.start).toUInt64 ≠ 0 := fun none =>
    UInt64.ne_of_lt few (sub_eq_zero.mp none).symm
  rw [ran, GupState.nextPage]
  rw [bounded, if_neg left]
  refine getUserPagesLoop_endless represents sorted _ behind ?_ ?_ turns
  · exact left
  · exact pageIncrem_add state.start

end Turn

/-- `__get_user_pages` sets the pages of a range that is mapped when it is a single page whose
number is not a multiple of `2 ^ 32`, and only then. -/
theorem getUserPages_iff (env : GupEnv) (word : UInt64 → UInt64) (tree : Tree UInt64 UInt64)
    (start nrPages : UInt64) (frames : UInt64 → UInt64)
    (represents : Represents ⟨env.mm.nodes, env.mm.mmRb⟩ tree)
    (sorted : env.mm.areas.Sorted tree.labels) (some : 1 ≤ nrPages)
    (present : ∀ i < nrPages, PagePresent env word tree.labels (start + i * pageSize) (frames i)) :
    (∀ pages, ∃ turns result, getUserPages env turns word start nrPages pages =
        .ok (nrPages, result) ∧ ∀ i < nrPages, result i = frames i) ↔
      nrPages = 1 ∧ (start >>> pageShift).toNat % 2 ^ 32 ≠ 0 := by
  have positive : 0 < nrPages := UInt64.lt_of_lt_of_le (by decide) some
  have nonzero : nrPages ≠ 0 := (UInt64.ne_of_lt positive).symm
  have here : PagePresent env word tree.labels start (frames 0) := by
    simpa only [zero_mul, add_zero] using present 0 positive
  have multiple : (start >>> pageShift).toNat % 2 ^ 32 = 0 ↔ pageIncrem start = 0 := by
    have bound := start.toNat_lt
    rw [← UInt32.toNat_inj, toNat_pageIncrem, UInt64.toNat_shiftRight, Nat.shiftRight_eq_div_pow,
      UInt32.toNat_zero]
    show start.toNat / 4096 % 2 ^ 32 = 0 ↔ _
    omega
  rw [ne_eq, multiple]
  simp only [getUserPages, if_neg nonzero]
  constructor
  · intro sets
    obtain ⟨turns, result, ran, set⟩ := sets fun i => frames i + 1
    obtain - | turns := turns
    · cases ran
    let first : GupState := ⟨word, 0, start, nrPages, 0, fun i => frames i + 1⟩
    have all : nrPages ≤ (pageIncrem start).toUInt64 := by
      by_contra few
      rw [getUserPagesLoop_passes represents sorted first here (UInt64.not_le.mp few)
        (present _ (UInt64.not_le.mp few))] at ran
      cases ran
    rw [getUserPagesLoop_ends represents sorted first here all] at ran
    have same : update (fun i => frames i + 1) 0 (frames 0) = result :=
      congrArg Prod.snd (Except.ok.inj ran)
    subst same
    refine ⟨?_, fun stays => ?_⟩
    · -- a second page is not set
      by_contra more
      have second := set 1 (UInt64.lt_of_le_of_ne some (Ne.symm more))
      exact absurd (add_eq_left.mp second) (by decide)
    · rw [stays] at all
      exact nonzero (UInt64.le_zero_iff.mp all)
  · rintro ⟨rfl, goesOn⟩ pages
    refine ⟨1, update pages 0 (frames 0), ?_, ?_⟩
    · have all : 1 ≤ (pageIncrem start).toUInt64 := by
        exact Nat.one_le_iff_ne_zero.mpr fun zero => goesOn (UInt32.toNat_inj.mp zero)
      exact getUserPagesLoop_ends represents sorted ⟨word, 0, start, 1, 0, pages⟩ here all 0
    · intro i below
      obtain rfl : i = 0 := UInt64.lt_one_iff.mp below
      exact Function.update_self ..

/-- An area of two pages, from 0x1000 on. -/
def twoPageEnv : GupEnv where
  mm := ⟨fun _ => ⟨0x1000, 0x3000, 0, 0, 0, 0, 0, 0⟩, onePageMemory.nodes, onePageMemory.rbNode, 8,
    0x3000, 2, 0, 0⟩
  vaPaOffset := 0
  pgd := 0x1000
  handleMmFault _ _ word := .ok word
  uninitialized := 0

/-- Tables that map the two pages to the frames 5 and 6. -/
def twoPageWord (cell : UInt64) : UInt64 :=
  if cell = 0x1000 then 0x801 else if cell = 0x2000 then 0xC01
  else if cell = 0x3008 then 0x1407 else if cell = 0x3010 then 0x1807 else 0

theorem present_twoPage {i : UInt64} (below : i < 2) :
    PagePresent twoPageEnv twoPageWord onePageTree.labels (0x1000 + i * pageSize) (5 + i) := by
  obtain rfl | rfl : i = 0 ∨ i = 1 := by
    rw [← UInt64.toNat_inj, ← UInt64.toNat_inj]
    have bound : i.toNat < 2 := below
    exact Nat.le_one_iff_eq_zero_or_eq_one.mp (Nat.le_of_lt_succ bound)
  · exact ⟨⟨8, List.mem_singleton_self _, by decide⟩, 1, 0x1407, rfl, by decide +kernel, by decide⟩
  · exact ⟨⟨8, List.mem_singleton_self _, by decide⟩, 1, 0x1807, rfl, by decide +kernel, by decide⟩

theorem sorted_twoPage : twoPageEnv.mm.areas.Sorted onePageTree.labels :=
  ⟨List.pairwise_singleton .., fun _ _ => show (0x1000 : UInt64) ≤ 0x3000 by decide⟩

/-- A single page is set. -/
theorem getUserPages_iff_onePage :
    ∃ turns result, getUserPages twoPageEnv turns twoPageWord 0x1000 1 (fun _ => 0) =
      .ok (1, result) ∧ result 0 = 5 := by
  have sets := (getUserPages_iff twoPageEnv twoPageWord onePageTree 0x1000 1 (5 + ·)
    represents_onePage sorted_twoPage (by decide) fun _ below =>
      present_twoPage (UInt64.lt_trans below (by decide))).mpr (by decide)
  obtain ⟨turns, result, ran, set⟩ := sets fun _ => 0
  exact ⟨turns, result, ran, set 0 (by decide)⟩

/-- Of two pages, the second one is counted and not set. -/
theorem getUserPages_twoPage :
    (Represents ⟨twoPageEnv.mm.nodes, twoPageEnv.mm.mmRb⟩ onePageTree ∧
      twoPageEnv.mm.areas.Sorted onePageTree.labels) ∧
    (∀ i < 2, PagePresent twoPageEnv twoPageWord onePageTree.labels (0x1000 + i * pageSize)
      (5 + i)) ∧
    (getUserPages twoPageEnv 2 twoPageWord 0x1000 2 fun _ => 0).map
      (fun (count, pages) => (count, pages 0, pages 1)) = .ok (2, 5, 0) :=
  ⟨⟨represents_onePage, sorted_twoPage⟩, fun _ => present_twoPage, by decide +kernel⟩

end Xlinux
