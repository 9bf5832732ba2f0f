/-
This file models `struct bio` and its iterator (`include/bio.h`, `include/bvec.h`),
and the mapping of the vectors of a bio to a scatterlist (`block/blk-merge.c`).
-/

import Xlinux.Virtio.Ring

namespace Xlinux

open List Nat UInt32

/-! ### The data -/

/-- `struct bio_vec`, with the physical address of its page. -/
structure BioVec where
  bvPage : UInt64
  bvLen : UInt32
  bvOffset : UInt32
  deriving DecidableEq, Repr

/-- `struct bvec_iter`. -/
structure BvecIter where
  biSector : UInt64
  biSize : UInt32
  biIdx : UInt32
  biBvecDone : UInt32
  deriving DecidableEq, Repr

/-- The fields of `struct bio` that are read here, with the next bio as a number. -/
structure Bio where
  biNext : Option Nat
  biOpf : UInt32
  biIoprio : UInt16
  biStatus : UInt8
  biIter : BvecIter
  biIoVec : List BioVec
  deriving DecidableEq, Repr

/-- `REQ_OP_MASK`. -/
def reqOpMask : UInt32 := 0xff

/-- `REQ_OP_READ`. -/
def reqOpRead : UInt32 := 0

/-- `REQ_OP_WRITE`. -/
def reqOpWrite : UInt32 := 1

/-- `REQ_HIPRI`. -/
def reqHipri : UInt32 := 0x1000000

/-- `bio_no_advance_iter`: discard, secure erase, write same and write zeroes. -/
def bioNoAdvanceIter (bio : Bio) : Bool :=
  bio.biOpf &&& reqOpMask ∈ [3, 5, 7, 9]

/-! ### The iterator -/

/-- The loop of `bvec_iter_advance`, with the vectors from the index on. -/
def bvecAdvanceLoop : List BioVec → UInt32 → UInt32 → Kernel (UInt32 × UInt32)
  | [], bytes, idx => if bytes = 0 then .ok (idx, bytes) else .error .outOfBounds
  | vec :: rest, bytes, idx =>
    if bytes ≠ 0 ∧ bytes ≥ vec.bvLen then bvecAdvanceLoop rest (bytes - vec.bvLen) (idx + 1)
    else .ok (idx, bytes)

/-- `bvec_iter_advance`. -/
def bvecIterAdvance (vecs : List BioVec) (iter : BvecIter) (bytes : UInt32) : Kernel BvecIter :=
  if bytes > iter.biSize then .error .bug
  else do
    let (idx, done) ←
      bvecAdvanceLoop (vecs.drop iter.biIdx.toNat) (bytes + iter.biBvecDone) iter.biIdx
    return { iter with biSize := iter.biSize - bytes, biIdx := idx, biBvecDone := done }

/-- `bio_advance_iter`. -/
def bioAdvanceIter (bio : Bio) (iter : BvecIter) (bytes : UInt32) : Kernel BvecIter :=
  let iter := { iter with biSector := iter.biSector + (bytes >>> 9).toUInt64 }
  if bioNoAdvanceIter bio then .error (.panic "no advance iter!")
  else bvecIterAdvance bio.biIoVec iter bytes

/-! ### The scatterlist -/

/-- `bio_for_each_bvec` in `__blk_bios_map_sg`, for a single bio. -/
def bioMapSg : Nat → Bio → BvecIter → Kernel (List Scatter)
  | 0, _, _ => .error .endless
  | turns + 1, bio, iter =>
    if iter.biSize = 0 then .ok []
    else
      match bio.biIoVec[iter.biIdx.toNat]? with
      | none => .error .outOfBounds
      | some vec =>
        let len := min iter.biSize (vec.bvLen - iter.biBvecDone)
        let offset := vec.bvOffset + iter.biBvecDone
        if (offset + len).toUInt64 ≤ pageSize then do
          let iter ← bioAdvanceIter bio iter len
          let rest ← bioMapSg turns bio iter
          return ⟨vec.bvPage + offset.toUInt64, len⟩ :: rest
        else .error (.panic "over PAGE_SIZE!")

/-- `__blk_bios_map_sg`. -/
def blkBiosMapSg (bios : Nat → Bio) : Nat → Option Nat → Kernel (List Scatter)
  | 0, _ => .error .endless
  | _ + 1, none => .ok []
  | turns + 1, some bio => do
    let first ← bioMapSg maxTurns (bios bio) (bios bio).biIter
    let rest ← blkBiosMapSg bios turns (bios bio).biNext
    return first ++ rest

/-- `blk_rq_map_sg` for the first bio of a request, into a table of `sg_elems` entries. -/
def blkRqMapSg (bios : Nat → Bio) (bio : Option Nat) (sgElems : UInt32) :
    Kernel (List Scatter) := do
  if bio = none then throw .bug
  let sgs ← blkBiosMapSg bios maxTurns bio
  if sgs = [] then throw .bug
  if sgs.length > sgElems.toNat then throw .outOfBounds
  return sgs

/-! ### A bio that may be submitted -/

/-- A bio as `bio_alloc`, `bio_add_page` and `bio_set_op_attrs` leave it: a read or a write that is
not polled, whose vectors lie in their pages and make up its size. -/
@[mk_iff]
structure Bio.Fresh (bio : Bio) : Prop where
  next : bio.biNext = none
  op : bio.biOpf &&& reqOpMask = reqOpRead ∨ bio.biOpf &&& reqOpMask = reqOpWrite
  hipri : bio.biOpf &&& reqHipri = 0
  status : bio.biStatus = 0
  idx : bio.biIter.biIdx = 0
  done : bio.biIter.biBvecDone = 0
  size : bio.biIter.biSize.toNat = (bio.biIoVec.map fun vec => vec.bvLen.toNat).sum
  filled : bio.biIoVec ≠ []
  vecs : ∀ vec ∈ bio.biIoVec, 0 < vec.bvLen ∧ vec.bvOffset.toNat + vec.bvLen.toNat ≤ pageSize.toNat

instance (bio : Bio) : Decidable bio.Fresh := decidable_of_iff' _ bio.fresh_iff

/-! ### Walking through a bio -/

/-- The entry of a scatterlist for a vector. -/
def BioVec.scatter (vec : BioVec) : Scatter := ⟨vec.bvPage + vec.bvOffset.toUInt64, vec.bvLen⟩

section Walk

variable {bio : Bio} {vecs : List BioVec}

theorem length_le_sum (positive : ∀ vec ∈ vecs, 0 < vec.bvLen) :
    vecs.length ≤ (vecs.map fun vec => vec.bvLen.toNat).sum := by
  induction vecs with
  | nil => exact le_refl _
  | cons vec rest ih =>
    have first : 0 < vec.bvLen.toNat := lt_iff_toNat_lt.mp (positive vec mem_cons_self)
    have later := ih (forall_mem_cons.mp positive).2
    rw [length_cons, map_cons, sum_cons]
    omega

/-- Advancing over all bytes ends behind the last vector. -/
theorem bvecAdvanceLoop_all (positive : ∀ vec ∈ vecs, 0 < vec.bvLen) {bytes : UInt32}
    (all : bytes.toNat = (vecs.map fun vec => vec.bvLen.toNat).sum) (idx : UInt32) :
    ∃ after, bvecAdvanceLoop vecs bytes idx = .ok (after, 0) := by
  induction vecs generalizing bytes idx with
  | nil =>
    obtain rfl : bytes = 0 := UInt32.toNat_inj.mp all
    exact ⟨idx, rfl⟩
  | cons vec rest ih =>
    rw [map_cons, sum_cons] at all
    have first : 0 < vec.bvLen.toNat := lt_iff_toNat_lt.mp (positive vec mem_cons_self)
    have enough : vec.bvLen ≤ bytes := le_iff_toNat_le.mpr (by omega)
    have some : bytes ≠ 0 := by
      rintro rfl
      rw [UInt32.toNat_zero] at all
      omega
    have less : (bytes - vec.bvLen).toNat = (rest.map fun vec => vec.bvLen.toNat).sum := by
      rw [UInt32.toNat_sub_of_le _ _ enough]
      omega
    rw [bvecAdvanceLoop, if_pos ⟨some, enough⟩]
    exact ih (forall_mem_cons.mp positive).2 less _

/-- Advancing over the bytes of a vector ends at the next one. -/
theorem bvecAdvanceLoop_vec {vec : BioVec} (positive : 0 < vec.bvLen) (rest : List BioVec)
    (idx : UInt32) : bvecAdvanceLoop (vec :: rest) vec.bvLen idx = .ok (idx + 1, 0) := by
  rw [bvecAdvanceLoop, if_pos ⟨UInt32.pos_iff_ne_zero.mp positive, UInt32.le_refl _⟩,
    UInt32.sub_self]
  cases rest <;> rfl

theorem Bio.Fresh.advances (fresh : bio.Fresh) : bioNoAdvanceIter bio = false := by
  unfold bioNoAdvanceIter
  rcases fresh.op with op | op
  · rw [op]
    rfl
  · rw [op]
    rfl

theorem min_eq_right_of_le {a b : UInt32} (less : b ≤ a) : min a b = b := by
  show (if a ≤ b then a else b) = b
  split_ifs with same
  · exact UInt32.le_antisymm same less
  · rfl

/-- The vectors from an index on are mapped to their entries. -/
theorem bioMapSg_of_iter (advances : bioNoAdvanceIter bio = false) {before rest : List BioVec}
    (split : bio.biIoVec = before ++ rest)
    (vecs : ∀ vec ∈ rest, 0 < vec.bvLen ∧ vec.bvOffset.toNat + vec.bvLen.toNat ≤ pageSize.toNat)
    {iter : BvecIter} (idx : iter.biIdx.toNat = before.length) (done : iter.biBvecDone = 0)
    (size : iter.biSize.toNat = (rest.map fun vec => vec.bvLen.toNat).sum)
    (short : before.length + rest.length < 2 ^ 32) {turns : Nat} (enough : rest.length < turns) :
    bioMapSg turns bio iter = .ok (rest.map BioVec.scatter) := by
  induction rest generalizing before iter turns with
  | nil =>
    obtain ⟨turns, rfl⟩ := exists_eq_succ_of_ne_zero (ne_zero_of_lt enough)
    rw [bioMapSg, if_pos (UInt32.toNat_inj.mp size)]
    rfl
  | cons vec rest ih =>
    obtain ⟨turns, rfl⟩ := exists_eq_succ_of_ne_zero (ne_zero_of_lt enough)
    obtain ⟨positive, inside⟩ := vecs vec mem_cons_self
    rw [map_cons, sum_cons] at size
    rw [length_cons] at short enough
    have first : 0 < vec.bvLen.toNat := lt_iff_toNat_lt.mp positive
    have enoughSize : vec.bvLen ≤ iter.biSize := le_iff_toNat_le.mpr (by omega)
    have some : iter.biSize ≠ 0 := by
      intro zero
      rw [zero, UInt32.toNat_zero] at size
      omega
    have here : bio.biIoVec[iter.biIdx.toNat]? = Option.some vec := by
      rw [split, idx, getElem?_append_right (le_refl _), Nat.sub_self]
      rfl
    have len : min iter.biSize (vec.bvLen - iter.biBvecDone) = vec.bvLen := by
      rw [done, UInt32.sub_zero]
      exact min_eq_right_of_le enoughSize
    have fits : (vec.bvOffset + vec.bvLen).toUInt64 ≤ pageSize := by
      exact (mod_le _ _).trans inside
    have from_here : bio.biIoVec.drop iter.biIdx.toNat = vec :: rest := by
      rw [split, idx, drop_left]
    have advanced : bioAdvanceIter bio iter vec.bvLen = .ok
        ⟨iter.biSector + (vec.bvLen >>> 9).toUInt64, iter.biSize - vec.bvLen,
          iter.biIdx + 1, 0⟩ := by
      rw [bioAdvanceIter, advances, bvecIterAdvance, if_neg (UInt32.not_lt.mpr enoughSize)]
      rw [from_here, done, UInt32.add_zero, bvecAdvanceLoop_vec positive]
      rfl
    have next : bioMapSg turns bio
        ⟨iter.biSector + (vec.bvLen >>> 9).toUInt64, iter.biSize - vec.bvLen, iter.biIdx + 1, 0⟩ =
          .ok (rest.map BioVec.scatter) := by
      refine ih (split.trans (append_cons ..))
        (forall_mem_cons.mp vecs).2 ?_ rfl ?_ ?_
        (lt_of_succ_lt_succ enough)
      · rw [length_append, UInt32.toNat_add, idx]
        exact mod_eq_of_lt (by show _ + 1 < _; omega)
      · rw [UInt32.toNat_sub_of_le _ _ enoughSize]
        omega
      · rw [length_append, length_singleton]
        omega
    rw [bioMapSg, if_neg some, here]
    dsimp only
    rw [len, done, UInt32.add_zero, if_pos fits, advanced, Kernel.ok_bind, next]
    rfl

/-- `blk_rq_map_sg` gives a fresh bio an entry for every vector. -/
theorem Bio.Fresh.blkRqMapSg {bios : Nat → Bio} {one : Nat} (fresh : (bios one).Fresh)
    (sgElems : UInt32) : Xlinux.blkRqMapSg bios (some one) sgElems =
      if (bios one).biIoVec.length ≤ sgElems.toNat then .ok ((bios one).biIoVec.map BioVec.scatter)
      else .error .outOfBounds := by
  have short : (bios one).biIoVec.length < 2 ^ 32 :=
    lt_of_le_of_lt (length_le_sum fun vec member => (fresh.vecs vec member).1)
      (fresh.size ▸ (bios one).biIter.biSize.toNat_lt)
  have mapped : bioMapSg maxTurns (bios one) (bios one).biIter =
      .ok ((bios one).biIoVec.map BioVec.scatter) := by
    refine bioMapSg_of_iter fresh.advances
      (nil_append _).symm fresh.vecs ?_ fresh.done fresh.size ?_ ?_
    · rw [fresh.idx]
      rfl
    · rwa [length_nil, zero_add]
    · exact short.trans (by decide)
  have chained :
      blkBiosMapSg bios maxTurns (some one) = .ok ((bios one).biIoVec.map BioVec.scatter) := by
    rw [maxTurns_eq, blkBiosMapSg, mapped, Kernel.ok_bind, fresh.next, blkBiosMapSg,
      Kernel.ok_bind, append_nil]
    rfl
  have some : (bios one).biIoVec.map BioVec.scatter ≠ [] := mt map_eq_nil_iff.mp fresh.filled
  rw [Xlinux.blkRqMapSg, if_neg (Option.some_ne_none one), chained]
  simp only [Kernel.ok_bind, if_neg some, length_map]
  split
  case isTrue outside => exact (if_neg (not_le.mpr outside)).symm
  case isFalse inside => exact (if_pos (not_lt.mp inside)).symm

end Walk

/-! ### The tables of a device -/

/-- `virtblk_probe`: the entries of a table, for the `seg_max` that the device reports. -/
def virtblkSgElems : Option UInt32 → UInt32
  | none | some 0 => 1 + 2
  | some segMax => segMax + 2

/-- No bio is split: only the device decides whether the vectors of a bio fit in the table. -/
theorem blkRqMapSg_inside_iff (segMax : Option UInt32) {bios : Nat → Bio} {one : Nat}
    (fresh : (bios one).Fresh) :
    blkRqMapSg bios (some one) (virtblkSgElems segMax) ≠ .error .outOfBounds ↔
      (bios one).biIoVec.length ≤ (virtblkSgElems segMax).toNat := by
  rw [fresh.blkRqMapSg]
  split_ifs with inside
  · exact iff_of_true nofun inside
  · exact iff_of_false (· rfl) inside

/-- A read of four pages. -/
def fourPages : Bio := ⟨none, reqOpRead, 0, 0, ⟨0, 16384, 0, 0⟩, replicate 4 ⟨0x80000000, 4096, 0⟩⟩

theorem fourPages_fresh : fourPages.Fresh := by decide

theorem blkRqMapSg_inside_two :
    blkRqMapSg (fun _ => fourPages) (some 0) (virtblkSgElems (some 2)) ≠ .error .outOfBounds :=
  (@blkRqMapSg_inside_iff (some 2) (fun _ => fourPages) 0 fourPages_fresh).mpr (by decide)

theorem blkRqMapSg_outside : fourPages.Fresh ∧
    blkRqMapSg (fun _ => fourPages) (some 0) (virtblkSgElems (some 1)) = .error .outOfBounds :=
  ⟨fourPages_fresh, @Bio.Fresh.blkRqMapSg (fun _ => fourPages) 0 fourPages_fresh _⟩

end Xlinux
