/-
This file runs `xas_store` over lists of calls, each with a state of its own that
may have been loaded before. What `xa_load` finds at the end is what was stored
last. The exception is a `NULL` stored with a state that `xas_load` has already
walked: `xas_store` loads again, and `xas_start` stops the kernel.
-/

import Xlinux.Xarray.Store
import Xlinux.Lib.Run

namespace Xlinux

open Cells Radix Hoare

variable {world : XaWorld} {total key : Nat} {tree : XaTree}

/-! ### One call -/

/-- The array has one more entry, or one less. -/
def XaStored (index : Nat) (found : Option XaEntry) (total : Nat) (tree : XaTree)
    (after : XaWorld) : Prop :=
  ∃ levels next, XaKept after levels next ∧
    ∀ key, next.lookup levels key = if key = index then found else tree.lookup total key

theorem xasInvalid_of_xasError {xas : XaState} (error : xasError xas = true) :
    xasInvalid xas = true := by
  have internal : xas.xaNode &&& 3 = 2 := by
    rw [xasError, xaIsErr, Bool.and_eq_true] at error
    exact of_decide_eq_true error.1
  rw [xasInvalid, internal]
  rfl

theorem xasSetSlot_invalid (invalid : xasInvalid world.xas = true) (first entry : UInt64) :
    xasSetSlot first entry world = .ok (first, world) := by
  rw [xasSetSlot, get_bind, if_pos invalid]
  rfl

theorem xasSetSlot_same (first : UInt64) : xasSetSlot first first world = .ok (first, world) := by
  rw [xasSetSlot, get_bind, if_pos rfl, ite_self]
  rfl

/-- A store of a pointer, from what `xas_create` has done. -/
theorem xasStore_some {index : Nat} (entry : XaEntry) (created : XaCreated index total tree world) :
    Hoare.Returns (xasStore entry.1) world fun _ after => xasError after.xas = true ∨
      xasError after.xas = false ∧ XaStored index (some entry) total tree after := by
  have allowRoot : (!xaIsNode entry.1 && !xaIsZero entry.1) = true := by
    rw [entry.xaIsNode, show xaIsZero entry.1 = false from xaIsZero_entryWord (some entry)]
    rfl
  rw [xasStore, if_pos entry.2.1, allowRoot]
  refine created.bind ?_
  rintro _ after (error | ⟨opened, levels, next, inner, last, rfl, rfl, open_⟩)
  · exact ⟨_, after, xasSetSlot_invalid (xasInvalid_of_xasError error) _ _, .inl error⟩
  · obtain ⟨after, set, noError, holds⟩ := open_.holds.xasSetSlot open_.leads (some entry)
    refine ⟨_, after, set, .inr ⟨noError, levels, _, ⟨holds, ?_, open_.top⟩, ?_⟩⟩
    · intro empty
      exact nomatch (fill_eq_empty empty).2
    · intro key
      rw [open_.leads.lookup_replace open_.room, open_.same, get_leafOf]

theorem lookup_eq_ite_of_eq {index : Nat} {found : Option XaEntry}
    (same : tree.lookup total index = found) (key : Nat) :
    tree.lookup total key = if key = index then found else tree.lookup total key := by
  split_ifs with here
  · rw [here, same]
  · rfl

/-- A store of `NULL`. -/
theorem XaKept.xasStore_none (kept : XaKept world total tree) (starts : Starts world.xas) :
    ∃ first after, xasStore 0 world = .ok (first, after) ∧ xasError after.xas = false ∧
      XaStored world.xas.xaIndex.toNat none total tree after := by
  rcases kept.xasLoad starts with ⟨beyond, ran⟩ | ⟨inside, below, inner, last, leads, ends, ran⟩
  · have none : tree.lookup total world.xas.xaIndex.toNat = none := if_neg (not_lt.mpr beyond)
    refine ⟨0, world.outside, ?_, xasError_outside, total, tree, kept.congr rfl rfl, ?_⟩
    · exact (bind_of_ok ran).trans (xasSetSlot_invalid xasInvalid_outside 0 0)
    · exact lookup_eq_ite_of_eq none
  · have fits := kept.fits_place leads
    cases last with
    | node ptr slots => exact absurd rfl (ends ptr slots)
    | empty =>
      have none : tree.lookup total world.xas.xaIndex.toNat = none := by
        rw [Slot.lookup, if_pos inside, leads.get_eq inside, get_empty]
      refine ⟨0, world.walkedTo inner, ?_, kept.noError leads, total, tree, kept.congr rfl rfl, ?_⟩
      · exact (bind_of_ok ran).trans (xasSetSlot_same 0)
      · exact lookup_eq_ite_of_eq none
    | entry found =>
      have level : below = 0 := fits_entry.mp fits
      subst level
      obtain ⟨after, set, noError, holds⟩ := kept.xasSetSlot leads none
      refine ⟨_, after, (bind_of_ok ran).trans set, noError, total, _, ⟨holds, ?_, kept.top⟩, ?_⟩
      · intro empty
        rw [← leads.depth, (fill_eq_empty empty).1]
        rfl
      · intro key
        rw [leads.lookup_replace inside, get_leafOf]

/-! ### Lists of calls -/

/-- A call of `xas_store` with a state of its own, that `xas_load` may have been called with. -/
structure XaCall where
  index : UInt64
  entry : UInt64
  loaded : Bool

/-- The array and the nodes that can be allocated. -/
structure XaUsers where
  array : XArray
  free : List UInt64

/-- `XARRAY_INIT`. -/
def emptyXArray (free : List UInt64) : XaUsers := ⟨⟨0, fun _ => clearedNode⟩, free⟩

/-- The code of a call. -/
def storeCode (call : XaCall) : XaM UInt64 :=
  if call.loaded then do
    let _ ← xasLoad
    xasStore call.entry
  else xasStore call.entry

/-- One call. A call in which no node can be allocated ends the run. -/
def xaCall (users : XaUsers) (call : XaCall) : Except Halt XaUsers :=
  match storeCode call ⟨users.array, xaStateOf call.index, users.free⟩ with
  | .ok (_, world) => if xasError world.xas then .error .misuse else .ok ⟨world.array, world.free⟩
  | .error fault => .error (.fault fault)

/-- The entry that the calls have stored last at an index. -/
def lastStored (calls : List XaCall) (index : UInt64) : UInt64 :=
  calls.foldl (fun word call => if call.index = index then call.entry else word) 0

/-- A call that can be made: the entry is a pointer, and `NULL` is not stored with a state that
has been used. -/
structure XaCall.Careful (call : XaCall) : Prop where
  pointer : xaIsInternal call.entry = false
  fresh : call.entry = 0 → call.loaded = false

/-- What the code of a call does. -/
theorem XaKept.storeCode {call : XaCall} (kept : XaKept world total tree) (careful : call.Careful)
    (start : world.xas = xaStateOf call.index) :
    Hoare.Returns (Xlinux.storeCode call) world fun _ after => xasError after.xas = true ∨
      xasError after.xas = false ∧ ∃ found, entryWord found = call.entry ∧
        XaStored call.index.toNat found total tree after := by
  have starts : Starts world.xas := start ▸ starts_xaStateOf call.index
  have index : world.xas.xaIndex = call.index := by rw [start, xaStateOf]
  have restart : xasTop world.xas.xaNode = true := by
    rw [start]
    show decide (xasRestart ≤ xasRestart) = true
    decide
  by_cases null : call.entry = 0
  · obtain ⟨first, after, ran, noError, stored⟩ := kept.xasStore_none starts
    refine ⟨first, after, ?_, .inr ⟨noError, none, null.symm, index ▸ stored⟩⟩
    rw [Xlinux.storeCode, careful.fresh null, if_neg nofun, null, ran]
  · let entry : XaEntry := ⟨call.entry, null, careful.pointer⟩
    have finish : ∀ {start}, XaCreated world.xas.xaIndex.toNat total tree start →
        Hoare.Returns (xasStore call.entry) start fun _ after => xasError after.xas = true ∨
          xasError after.xas = false ∧ ∃ found, entryWord found = call.entry ∧
            XaStored call.index.toNat found total tree after := by
      refine fun created => (xasStore_some entry created).mono fun _ after => Or.imp_right ?_
      exact fun ⟨noError, stored⟩ => ⟨noError, some entry, rfl, index ▸ stored⟩
    rw [Xlinux.storeCode]
    split
    case isFalse => exact finish (kept.xasCreate_top starts.shift starts.offset restart)
    case isTrue =>
      rcases kept.xasLoad starts with ⟨_, ran⟩ | ⟨inside, _, inner, _, leads, _, ran⟩
      · refine .of_eq (bind_of_ok ran) (finish ?_)
        exact (kept.congr rfl rfl : XaKept world.outside total tree).xasCreate_top starts.shift
          starts.offset (show decide (xasBounds ≤ xasRestart) = true by decide)
      · refine .of_eq (bind_of_ok ran) (finish ?_)
        cases inner with
        | nil =>
          exact (kept.congr rfl rfl :
            XaKept (world.walkedTo []) total tree).xasCreate_top starts.shift
            rfl (show decide ((0 : UInt64) ≤ xasRestart) = true by decide)
        | cons frame rest => exact kept.xasCreate_place kept.top starts.shift inside leads

/-! ### Runs -/

/-- The array has the words of some indices, and nothing beyond the last index. -/
def XaRepresents (users : XaUsers) (words : UInt64 → UInt64) : Prop :=
  ∃ total tree, XaKept ⟨users.array, xaStateOf 0, users.free⟩ total tree ∧
    (∀ index : UInt64, entryWord (tree.lookup total index.toNat) = words index) ∧
    ∀ key, 2 ^ 64 ≤ key → tree.lookup total key = none

variable {users : XaUsers} {words : UInt64 → UInt64}

theorem XaRepresents.xaLoad (represents : XaRepresents users words) (index : UInt64) :
    Xlinux.xaLoad users.array index = .ok (words index) := by
  obtain ⟨_, _, kept, same, -⟩ := represents
  rw [← same index]
  exact kept.xaLoad index

theorem xaKept_emptyXArray {free : List UInt64} (usable : ∀ ptr ∈ free, XaUsable ptr)
    (nodup : free.Nodup) : XaKept ⟨(emptyXArray free).array, xaStateOf 0, free⟩ 0 .empty := by
  refine ⟨⟨rfl, ?_, fits_empty, nodup, fun ptr member => ⟨usable ptr member, ?_⟩⟩, fun _ => rfl,
    by decide⟩
  · exact ⟨Multiset.nodup_zero, fun _ none => absurd none (Multiset.notMem_zero _),
      fun _ none => absurd none (Multiset.notMem_zero _)⟩
  · exact Multiset.notMem_zero ptr

theorem xaRepresents_emptyXArray {free : List UInt64} (usable : ∀ ptr ∈ free, XaUsable ptr)
    (nodup : free.Nodup) : XaRepresents (emptyXArray free) fun _ => 0 := by
  refine ⟨0, .empty, xaKept_emptyXArray usable nodup, fun index => ?_, fun key _ => lookup_empty⟩
  rw [lookup_empty]
  rfl

/-- A call changes the word of its index, or no node could be allocated for it. -/
theorem XaRepresents.xaCall (represents : XaRepresents users words) {call : XaCall}
    (careful : call.Careful) :
    xaCall users call = .error .misuse ∨ ∃ after, xaCall users call = .ok after ∧
      XaRepresents after fun index => if call.index = index then call.entry else words index := by
  obtain ⟨total, tree, kept, same, beyond⟩ := represents
  have start : XaKept ⟨users.array, xaStateOf call.index, users.free⟩ total tree :=
    kept.congr rfl rfl
  obtain ⟨_, world, ran, error | ⟨noError, _, word, levels, next, kept, stored⟩⟩ :=
    start.storeCode careful rfl
  · left
    rw [Xlinux.xaCall, ran]
    exact if_pos error
  · refine .inr ⟨⟨world.array, world.free⟩, ?_, levels, next, kept.congr rfl rfl, fun index => ?_,
      fun key high => ?_⟩
    · rw [Xlinux.xaCall, ran]
      exact if_neg (Bool.eq_false_iff.mp noError)
    · rw [stored]
      dsimp only
      by_cases here : call.index = index
      · rw [if_pos (congrArg UInt64.toNat here.symm), if_pos here, word]
      · have other : index.toNat ≠ call.index.toNat := fun eq => here (UInt64.toNat_inj.mp eq.symm)
        rw [if_neg other, if_neg here, same]
    · have other : key ≠ call.index.toNat := (call.index.toNat_lt.trans_le high).ne'
      rw [stored, if_neg other, beyond key high]

theorem XaRepresents.run (represents : XaRepresents users words) {calls : List XaCall}
    (careful : ∀ call ∈ calls, call.Careful) :
    Run.run Xlinux.xaCall users calls = .error .misuse ∨
      ∃ after, Run.run Xlinux.xaCall users calls = .ok after ∧ XaRepresents after fun index =>
        calls.foldl (fun word call => if call.index = index then call.entry else word)
          (words index) := by
  induction calls generalizing users words with
  | nil => exact .inr ⟨users, rfl, represents⟩
  | cons call rest ih =>
    obtain ⟨first, others⟩ := List.forall_mem_cons.mp careful
    rw [Run.run]
    rcases represents.xaCall first with misuse | ⟨after, called, next⟩
    · rw [misuse]
      exact .inl rfl
    · rw [called]
      exact ih next others

/-- Whatever pointers are stored at whatever indices, `xa_load` returns what was stored last at
its index, and the kernel is not stopped. -/
theorem xaCall_run_lastStored (free : List UInt64) (usable : ∀ ptr ∈ free, XaUsable ptr)
    (nodup : free.Nodup) (calls : List XaCall) (careful : ∀ call ∈ calls, call.Careful) :
    (∀ users, Run.run xaCall (emptyXArray free) calls = .ok users →
        ∀ index, xaLoad users.array index = .ok (lastStored calls index)) ∧
      ∀ fault, Run.run xaCall (emptyXArray free) calls ≠ .error (.fault fault) := by
  rcases (xaRepresents_emptyXArray usable nodup).run careful with misuse | ⟨after, ran, represents⟩
  · rw [misuse]
    exact ⟨nofun, nofun⟩
  · rw [ran]
    refine ⟨?_, nofun⟩
    rintro users ⟨rfl⟩
    exact represents.xaLoad

/-- Two pointers, and the first one taken out again. -/
def threeStores : List XaCall := [⟨0, 8, false⟩, ⟨70, 16, true⟩, ⟨0, 0, false⟩]

theorem xaCall_run_lastStored_three :
    ∃ users, Run.run xaCall (emptyXArray [0x10000, 0x20000, 0x30000]) threeStores = .ok users ∧
      xaLoad users.array 70 = .ok 16 := by
  have result := xaCall_run_lastStored [0x10000, 0x20000, 0x30000]
    (by simp only [List.forall_mem_cons]; exact ⟨by decide, by decide, by decide, nofun⟩)
    (by decide)
    threeStores (by
      simp only [threeStores, List.forall_mem_cons]
      exact ⟨⟨by decide, by decide⟩, ⟨by decide, by decide⟩, ⟨by decide, by decide⟩, nofun⟩)
  have returns : (Run.run xaCall (emptyXArray [0x10000, 0x20000, 0x30000]) threeStores).map
      (fun _ => ()) = .ok () := by decide +kernel
  obtain ⟨users, ran, -⟩ := exists_ok_of_map returns
  have last : lastStored threeStores 70 = 16 := by decide
  exact ⟨users, ran, last ▸ result.1 users ran 70⟩

/-- `NULL` stored with a state that has been loaded stops the kernel. -/
theorem xaCall_loaded_null :
    Run.run xaCall (emptyXArray []) [⟨0, 8, false⟩, ⟨0, 0, true⟩] =
      .error (.fault (.panic "xas valid!")) := by
  have halted : (Run.run xaCall (emptyXArray []) [⟨0, 8, false⟩, ⟨0, 0, true⟩]).map (fun _ => ()) =
      .error (.fault (.panic "xas valid!")) := by decide +kernel
  cases ran : Run.run xaCall (emptyXArray []) [⟨0, 8, false⟩, ⟨0, 0, true⟩] with
  | ok users =>
    rw [ran] at halted
    exact nomatch halted
  | error halt =>
    rw [ran] at halted
    exact congrArg Except.error (Except.error.inj halted)

end Xlinux
