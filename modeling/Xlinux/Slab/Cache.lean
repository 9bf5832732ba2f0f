/-
This file models how `slab/slab.c` lays out a cache: `__kmem_cache_create` rounds
the object size up, chooses where the stack of free indices of a slab is kept
(inside a free object or behind the objects), and finds the order of a slab and
the number of its objects. The sizes are 32-bit words and are rounded without a
check, so a size near `2 ^ 32` wraps around; for the others the layout is sane.
-/

import Xlinux.Kernel
import Xlinux.Word

namespace Xlinux

open Nat

variable {gfporder : Nat} {request : CacheRequest} {cache : KmemCache}

/-! ### Parameters -/

/-- `BYTES_PER_WORD`. -/
def bytesPerWord : UInt32 := 8

/-- `SLAB_OBJ_MIN_SIZE`. -/
def slabObjMinSize : UInt32 := 16

/-- `SLAB_OBJ_MAX_NUM`: a free index is a byte. -/
def slabObjMaxNum : Nat := 255

/-- `KMALLOC_MAX_ORDER`. -/
def kmallocMaxOrder : Nat := 10

/-- `CFLGS_OBJFREELIST_SLAB`, a flag that `slab.c` keeps to itself. -/
def cflgsObjfreelistSlab : UInt32 := 0x40000000

/-- `ALIGN` at the type `unsigned int`. -/
def alignUp (x a : UInt32) : UInt32 := (x + (a - 1)) &&& ~~~(a - 1)

/-- The conversion of an `int`, kept as its 32 bits, to `size_t`. -/
def toSizeT (x : UInt32) : Nat :=
  if x.toNat < 2 ^ 31 then x.toNat else x.toNat + (2 ^ 64 - 2 ^ 32)

/-- `enum slab_state`. -/
inductive SlabState
  | down
  | partly
  | partlyNode
  | up
  | full
  deriving DecidableEq, Repr

/-- What a caller asks of `__kmem_cache_create`: the fields `size` and `object_size`, which are
the same then, `align` and `ctor` of the cache, and the flags. -/
structure CacheRequest where
  objectSize : UInt32
  align : UInt32
  flags : UInt32
  hasCtor : Bool
  deriving DecidableEq, Repr

/-- `struct kmem_cache`, with the fields that stay as they are. The conversion of `object_size` to
an unsigned type has been made. -/
structure KmemCache where
  objectSize : Nat
  size : Nat
  flags : UInt32
  num : Nat
  gfporder : Nat
  freelistSize : Nat
  hasCtor : Bool
  deriving DecidableEq, Repr

/-- `struct array_cache`; `avail` is the length of `entry`. -/
structure ArrayCache where
  limit : Nat
  batchcount : Nat
  entry : List Nat
  deriving DecidableEq, Repr

/-- `OBJFREELIST_SLAB`. -/
def KmemCache.objfreelist (cache : KmemCache) : Bool := cache.flags &&& cflgsObjfreelistSlab ≠ 0

/-- `PAGE_SIZE << gfporder`. -/
def slabBytes (gfporder : Nat) : Nat := 4096 <<< gfporder

/-! ### Layout -/

/-- `cache_estimate`: the number of objects of a slab. -/
def cacheEstimate (gfporder bufferSize : Nat) (flags : UInt32) : Nat :=
  if flags &&& cflgsObjfreelistSlab ≠ 0 then slabBytes gfporder / bufferSize
  else slabBytes gfporder / (bufferSize + 1)

/-- The loop of `calculate_slab_order`: the number of objects and the order, unless the number
stays zero. -/
def slabOrderLoop (size : Nat) (flags : UInt32) : Nat → Nat → Option (Nat × Nat)
  | 0, _ => none
  | turns + 1, gfporder =>
    let num := cacheEstimate gfporder size flags
    if num = 0 then slabOrderLoop size flags turns (gfporder + 1)
    else if num > slabObjMaxNum then none
    else some (num, gfporder)

/-- `calculate_slab_order`. -/
def calculateSlabOrder (size : Nat) (flags : UInt32) : Option (Nat × Nat) :=
  slabOrderLoop size flags (kmallocMaxOrder + 1) 0

/-- `set_objfreelist_slab_cache`. -/
def setObjfreelistSlabCache (request : CacheRequest) (size : Nat) : Option (Nat × Nat) :=
  if request.hasCtor then none
  else
    match calculateSlabOrder size (request.flags ||| cflgsObjfreelistSlab) with
    | none => none
    | some (num, gfporder) =>
      if num > toSizeT request.objectSize then none else some (num, gfporder)

/-- `set_on_slab_cache`. -/
def setOnSlabCache (request : CacheRequest) (size : Nat) : Option (Nat × Nat) :=
  calculateSlabOrder size request.flags

/-- The alignment that `__kmem_cache_create` uses. -/
def CacheRequest.ralign (request : CacheRequest) : UInt32 :=
  if bytesPerWord.toNat < toSizeT request.align then request.align else bytesPerWord

/-- The size that `__kmem_cache_create` computes. -/
def CacheRequest.size (request : CacheRequest) : UInt32 :=
  let size := alignUp (alignUp request.objectSize bytesPerWord) request.ralign
  if size < slabObjMinSize then alignUp slabObjMinSize request.ralign else size

/-- The layout that `__kmem_cache_create` chooses. -/
def cacheLayout (request : CacheRequest) : Kernel KmemCache :=
  let size := request.size.toNat
  let cache := fun (flags : UInt32) (num gfporder : Nat) =>
    { objectSize := toSizeT request.objectSize, size, flags, num, gfporder,
      freelistSize := num, hasCtor := request.hasCtor : KmemCache }
  match setObjfreelistSlabCache request size with
  | some (num, gfporder) => .ok (cache (request.flags ||| cflgsObjfreelistSlab) num gfporder)
  | none =>
    match setOnSlabCache request size with
    | some (num, gfporder) => .ok (cache request.flags num gfporder)
    | none => .error (.panic "bad cache!")

/-! ### The per-cpu array -/

/-- `reserved_chunk_ptr` and `reserved_chunk_size`. -/
structure ReservedChunk where
  ptr : Nat
  size : Nat
  deriving DecidableEq, Repr

/-- `alloc_kmem_cache_cpus`. The header of `struct array_cache` takes 16 bytes. -/
def allocKmemCacheCpus (chunk : ReservedChunk) (entries batchcount : Nat) :
    Kernel (ArrayCache × ReservedChunk) :=
  let size := 8 * entries + 16
  if chunk.ptr = 0 ∨ chunk.size = 0 then .error (.panic "no reserved memory for cpu_cache")
  else if size > chunk.size then
    .error (.panic s!"need {size}, but left reserved chunk is {chunk.size}")
  else .ok (⟨entries, batchcount, []⟩, ⟨chunk.ptr + size, chunk.size - size⟩)

/-- The limit that `enable_cpucache` chooses. -/
def cpucacheLimit (size : Nat) : Nat :=
  if size > 131072 then 1
  else if size > 4096 then 8
  else if size > 1024 then 24
  else if size > 256 then 54
  else 120

/-- `setup_cpu_cache` of a new cache, with `enable_cpucache` once the allocator is up. -/
def setupCpuCache (state : SlabState) (chunk : ReservedChunk) (cache : KmemCache) :
    Kernel (ArrayCache × ReservedChunk) :=
  match state with
  | .full =>
    let limit := cpucacheLimit cache.size
    allocKmemCacheCpus chunk limit ((limit + 1) / 2)
  | _ => allocKmemCacheCpus chunk 1 1

/-- `__kmem_cache_create`: the cache, its per-cpu array, and what is left of the chunk. -/
def kmemCacheCreate (state : SlabState) (chunk : ReservedChunk) (request : CacheRequest) :
    Kernel (KmemCache × ArrayCache × ReservedChunk) := do
  let cache ← cacheLayout request
  let (cpuCache, chunk) ← setupCpuCache state chunk cache
  return (cache, cpuCache, chunk)

/-! ### Sane layouts -/

/-- The rounding of the size stays below `2 ^ 32`, and the caller leaves the private flag alone. -/
structure CacheRequest.Fits (request : CacheRequest) : Prop where
  word : request.objectSize.toNat + (bytesPerWord - 1).toNat < 2 ^ 32
  align : (alignUp request.objectSize bytesPerWord).toNat + (request.ralign - 1).toNat < 2 ^ 32
  least : slabObjMinSize.toNat + (request.ralign - 1).toNat < 2 ^ 32
  flags : request.flags &&& cflgsObjfreelistSlab = 0

/-- A layout in which objects lie apart from each other and from the free indices. -/
structure KmemCache.Sane (cache : KmemCache) : Prop where
  num_pos : 0 < cache.num
  num_le : cache.num ≤ slabObjMaxNum
  size_pos : 0 < cache.size
  objectSize_le : cache.objectSize ≤ cache.size
  freelistSize_eq : cache.freelistSize = cache.num
  /-- An object that can hold the free indices holds them. -/
  inside : cache.objfreelist = true →
    cache.num ≤ cache.size ∧ cache.num * cache.size ≤ slabBytes cache.gfporder
  /-- Otherwise they stand at the end of the slab. -/
  behind : cache.objfreelist = false → cache.num * cache.size + cache.num ≤ slabBytes cache.gfporder
  /-- A slab of several pages has one object. -/
  single : 0 < cache.gfporder → cache.num = 1
  /-- Free objects that have been constructed are left alone. -/
  constructed : cache.hasCtor = true → cache.objfreelist = false

theorem toNat_le_alignUp {x a : UInt32} (fits : x.toNat + (a - 1).toNat < 2 ^ 32) :
    x.toNat ≤ (alignUp x a).toNat := by
  have sum : ((x + (a - 1)) &&& (a - 1)).toNat + (alignUp x a).toNat = (x + (a - 1)).toNat :=
    toNat_and_add_toNat_and_not_bitVec (x + (a - 1)).toBitVec (a - 1).toBitVec
  have low : ((x + (a - 1)) &&& (a - 1)).toNat ≤ (a - 1).toNat := by
    exact and_le_right
  rw [UInt32.toNat_add, mod_eq_of_lt fits] at sum
  omega

/-- A request that fits gets a size of at least its own and at least the smallest one. -/
theorem CacheRequest.Fits.size_ge (fits : request.Fits) :
    request.objectSize.toNat ≤ request.size.toNat ∧ slabObjMinSize.toNat ≤ request.size.toNat := by
  have rounded : request.objectSize.toNat ≤
      (alignUp (alignUp request.objectSize bytesPerWord) request.ralign).toNat :=
    (toNat_le_alignUp fits.word).trans (toNat_le_alignUp fits.align)
  have least := toNat_le_alignUp fits.least
  rw [CacheRequest.size]
  split
  · rename_i small
    rw [UInt32.lt_iff_toNat_lt] at small
    exact ⟨by omega, least⟩
  · rename_i large
    rw [UInt32.lt_iff_toNat_lt, not_lt] at large
    exact ⟨rounded, large⟩

/-- The first order that gives an object is chosen. -/
theorem slabOrderLoop_spec {size : Nat} {flags : UInt32} {turns start num : Nat}
    (found : slabOrderLoop size flags turns start = some (num, gfporder)) :
    num = cacheEstimate gfporder size flags ∧ 0 < num ∧ num ≤ slabObjMaxNum ∧
      start ≤ gfporder ∧ gfporder < start + turns ∧
      (start < gfporder → cacheEstimate (gfporder - 1) size flags = 0) := by
  induction turns generalizing start with
  | zero => cases found
  | succ turns ih =>
    rw [slabOrderLoop] at found
    split at found
    · rename_i none
      obtain ⟨same, positive, most, _, _, before⟩ := ih found
      refine ⟨same, positive, most, by omega, by omega, fun later => ?_⟩
      by_cases next : start + 1 < gfporder
      · exact before next
      · obtain rfl : gfporder = start + 1 := by omega
        exact none
    · split at found
      · cases found
      · cases found
        exact ⟨rfl, by omega, by omega, le_rfl, by omega, (lt_irrefl _).elim⟩

theorem slabBytes_le (bound : gfporder < kmallocMaxOrder + 1) : slabBytes gfporder ≤ 2 ^ 22 := by
  have power : 2 ^ gfporder ≤ 2 ^ 10 := Nat.pow_le_pow_right Nat.two_pos (le_of_lt_succ bound)
  rw [slabBytes]
  omega

/-- What `calculate_slab_order` finds for buffers of a positive size: they fit, and a slab of
several pages has room for one. -/
theorem calculateSlabOrder_spec {size : Nat} {flags : UInt32} {num : Nat} (positive : 0 < size)
    (found : calculateSlabOrder size flags = some (num, gfporder)) :
    let buffer := if flags &&& cflgsObjfreelistSlab ≠ 0 then size else size + 1
    0 < num ∧ num ≤ slabObjMaxNum ∧ num * buffer ≤ slabBytes gfporder ∧
      slabBytes gfporder ≤ 2 ^ 22 ∧ (0 < gfporder → num = 1) := by
  intro buffer
  have bufferPos : 0 < buffer := by
    show 0 < ite _ _ _
    split
    · exact positive
    · exact succ_pos size
  have estimate : ∀ order, cacheEstimate order size flags = slabBytes order / buffer := by
    intro order
    show ite _ _ _ = _ / ite _ _ _
    split <;> rfl
  obtain ⟨same, numPos, most, _, _, before⟩ := slabOrderLoop_spec found
  rw [estimate] at same
  refine ⟨numPos, most, same ▸ div_mul_le_self _ _, slabBytes_le (by omega), fun later => ?_⟩
  -- the order below had no room for a buffer, and a slab of this order is twice as large
  obtain ⟨below, rfl⟩ := exists_eq_succ_of_ne_zero (pos_iff_ne_zero.mp later)
  have tight := before later
  rw [succ_sub_one, estimate, Nat.div_eq_zero_iff] at tight
  have double : slabBytes (below + 1) = 2 * slabBytes below := by
    rw [slabBytes, slabBytes, shiftLeft_eq]
    omega
  have fewer : num < 2 := by
    rw [same, div_lt_iff_lt_mul bufferPos]
    show slabBytes (below + 1) < 2 * buffer
    omega
  omega

theorem toSizeT_of_lt {x : UInt32} (small : x.toNat < 2 ^ 31) : toSizeT x = x.toNat :=
  if_pos small

/-- What `__kmem_cache_create` can choose. -/
theorem cacheLayout_ok (created : cacheLayout request = .ok cache) :
    calculateSlabOrder cache.size cache.flags = some (cache.num, cache.gfporder) ∧
      cache.objectSize = toSizeT request.objectSize ∧ cache.size = request.size.toNat ∧
      cache.freelistSize = cache.num ∧ cache.hasCtor = request.hasCtor ∧
      (cache.flags = request.flags ∨ cache.flags = request.flags ||| cflgsObjfreelistSlab ∧
        ¬request.hasCtor = true ∧ cache.num ≤ cache.objectSize) := by
  rw [cacheLayout] at created
  cases inObject : setObjfreelistSlabCache request request.size.toNat with
  | some layout =>
    simp only [inObject, Except.ok.injEq] at created
    subst created
    rw [setObjfreelistSlabCache] at inObject
    split_ifs at inObject with noCtor
    split at inObject
    case h_1 => cases inObject
    case h_2 found =>
      split_ifs at inObject with enough
      cases inObject
      exact ⟨found, rfl, rfl, rfl, rfl, .inr ⟨rfl, noCtor, Nat.le_of_not_lt enough⟩⟩
  | none =>
    simp only [inObject] at created
    cases found : setOnSlabCache request request.size.toNat with
    | none => simp [found] at created
    | some layout =>
      simp only [found, Except.ok.injEq] at created
      subst created
      exact ⟨found, rfl, rfl, rfl, rfl, .inl rfl⟩

/-- The layout of every request that fits is sane. -/
theorem CacheRequest.Fits.sane (fits : request.Fits) (created : cacheLayout request = .ok cache) :
    cache.Sane := by
  obtain ⟨found, object, size, freelist, ctor, chosen⟩ := cacheLayout_ok created
  obtain ⟨sizeGe, sizeMin⟩ := fits.size_ge
  rw [← size] at sizeGe sizeMin
  have sizePos : 0 < cache.size := lt_of_lt_of_le (by decide) sizeMin
  obtain ⟨numPos, most, room, _, single⟩ := calculateSlabOrder_spec sizePos found
  have one : cache.size ≤ cache.num * cache.size := Nat.le_mul_of_pos_left _ numPos
  have whole : cache.num * cache.size ≤ slabBytes cache.gfporder := by
    refine le_trans (mul_le_mul_left _ ?_) room
    split <;> omega
  have word : toSizeT request.objectSize = request.objectSize.toNat := toSizeT_of_lt (by omega)
  have objectSize : cache.objectSize ≤ cache.size := by rwa [object, word]
  have ordinary : cache.flags = request.flags → cache.objfreelist = false := by
    intro same
    rw [KmemCache.objfreelist, same]
    exact decide_eq_false (not_not.mpr fits.flags)
  refine ⟨numPos, most, sizePos, objectSize, freelist, fun held => ⟨?_, whole⟩, fun no =>
    ?_, single, fun constructed => ?_⟩
  · rcases chosen with same | ⟨_, _, enough⟩
    · exact absurd held (Bool.eq_false_iff.mp (ordinary same))
    · exact enough.trans objectSize
  · rwa [if_neg (of_decide_eq_false no)] at room
  · rcases chosen with same | ⟨_, noCtor, _⟩
    · exact ordinary same
    · exact absurd (ctor ▸ constructed) noCtor

/-- `KMALLOC_MAX_SIZE`. -/
def kmallocMaxSize : Nat := 2 ^ 22

theorem alignUp_le {x a : UInt32} (fits : x.toNat + (a - 1).toNat < 2 ^ 32) :
    (alignUp x a).toNat ≤ x.toNat + (a - 1).toNat := by
  refine (UInt32.toNat_and .. ▸ and_le_left).trans_eq ?_
  rw [UInt32.toNat_add, mod_eq_of_lt fits]

theorem fits_of_le (size : request.objectSize.toNat ≤ kmallocMaxSize)
    (align : request.align.toNat ≤ 4096) (flags : request.flags &&& cflgsObjfreelistSlab = 0) :
    request.Fits := by
  have bound : request.objectSize.toNat ≤ 2 ^ 22 := size
  have mask : (request.ralign - 1).toNat ≤ 4095 := by
    have most : request.ralign.toNat ≤ 4096 ∧ 1 ≤ request.ralign.toNat := by
      rw [CacheRequest.ralign, toSizeT_of_lt (by omega)]
      split_ifs with more
      · exact ⟨align, one_le_of_lt more⟩
      · decide
    rw [UInt32.toNat_sub_of_le _ _
      (UInt32.le_iff_toNat_le.mpr (show (1 : UInt32).toNat ≤ _ from most.2))]
    exact Nat.sub_le_sub_right most.1 1
  have word : request.objectSize.toNat + (bytesPerWord - 1).toNat < 2 ^ 32 :=
    lt_of_le_of_lt (Nat.add_le_add_right bound _) (by decide)
  have rounded : (alignUp request.objectSize bytesPerWord).toNat ≤ 2 ^ 22 + 7 :=
    (alignUp_le word).trans (Nat.add_le_add_right bound _)
  exact ⟨word, by omega, lt_of_le_of_lt (Nat.add_le_add_left mask _) (by decide), flags⟩

theorem dvd_alignUp {a : UInt32} {shift : Nat} (power : a.toNat = 2 ^ shift) (x : UInt32) :
    a.toNat ∣ (alignUp x a).toNat := by
  have positive : (1 : UInt32).toNat ≤ a.toNat := power ▸ Nat.one_le_two_pow
  have mask : (a - 1).toNat = 2 ^ shift - 1 := by
    rw [UInt32.toNat_sub_of_le _ _ (UInt32.le_iff_toNat_le.mpr positive), power]
    rfl
  rw [alignUp, toNat_and_not_uint mask, power]
  exact Nat.dvd_mul_left ..

/-- The objects are aligned one behind the other. -/
theorem align_dvd_size {shift : Nat} (small : shift ≤ 12)
    (power : request.align.toNat = 2 ^ shift) : request.align.toNat ∣ request.size.toNat := by
  have bound : 2 ^ shift ≤ 2 ^ 12 := Nat.pow_le_pow_right two_pos small
  obtain ⟨_, raised, whole⟩ : ∃ k, request.ralign.toNat = 2 ^ k ∧
      request.align.toNat ∣ request.ralign.toNat := by
    rw [CacheRequest.ralign, toSizeT_of_lt (by omega)]
    split_ifs with more
    · exact ⟨shift, power, dvd_rfl⟩
    · rw [power] at more ⊢
      have less : 2 ^ shift ≤ 2 ^ 3 := not_lt.mp more
      exact ⟨3, rfl, pow_dvd_pow 2 ((Nat.pow_le_pow_iff_right one_lt_two).mp less)⟩
  rw [CacheRequest.size]
  split_ifs <;> exact whole.trans (dvd_alignUp raised _)

/-- Whatever size and alignment a caller asks for, with or without a constructor: the objects of a
slab are aligned, they and the free indices behind them fit in it, free indices in an object fit in
the object, and a slab of several pages has one object. -/
theorem kmemCacheCreate_layout {state : SlabState} {chunk left : ReservedChunk}
    {cpuCache : ArrayCache}
    (size : 1 ≤ request.objectSize.toNat ∧ request.objectSize.toNat ≤ kmallocMaxSize)
    (align : ∃ shift ≤ pageShift.toNat, request.align.toNat = 2 ^ shift)
    (flags : request.flags &&& cflgsObjfreelistSlab = 0)
    (created : kmemCacheCreate state chunk request = .ok (cache, cpuCache, left)) :
    1 ≤ cache.num ∧ cache.num ≤ slabObjMaxNum ∧
      (cache.size = request.size.toNat ∧ request.objectSize.toNat ≤ cache.size ∧
        request.align.toNat ∣ cache.size) ∧
      cache.num * cache.size + (if cache.objfreelist then 0 else cache.freelistSize) ≤
        slabBytes cache.gfporder ∧
      (cache.objfreelist = true → cache.freelistSize ≤ request.objectSize.toNat) ∧
      (0 < cache.gfporder → cache.num = 1) := by
  obtain ⟨_, laidOut, setup⟩ := Kernel.bind_ok.mp created
  obtain ⟨_, _, same⟩ := Kernel.bind_ok.mp setup
  cases same
  obtain ⟨shift, small, power⟩ := align
  have fits : request.Fits :=
    fits_of_le size.2 (power ▸ Nat.pow_le_pow_right two_pos small) flags
  have sane := fits.sane laidOut
  obtain ⟨_, object, rounded, freelist, _, chosen⟩ := cacheLayout_ok laidOut
  have word : cache.objectSize = request.objectSize.toNat :=
    object.trans (toSizeT_of_lt (lt_of_le_of_lt size.2 (by decide)))
  refine ⟨sane.num_pos, sane.num_le, ⟨rounded, word ▸ sane.objectSize_le,
    rounded ▸ align_dvd_size small power⟩, ?_, fun held => ?_,
    sane.single⟩
  · split_ifs with held
    · exact (sane.inside held).2
    · exact freelist ▸ sane.behind (Bool.eq_false_iff.mpr held)
  · rcases chosen with same | ⟨_, _, enough⟩
    · rw [KmemCache.objfreelist, same] at held
      exact absurd flags (of_decide_eq_true held)
    · rwa [freelist, ← word]

/-- Four objects of a thousand bytes, with the free indices in one of them. -/
theorem kmemCacheCreate_layout_thousand :
    ∃ cache cpuCache left,
      kmemCacheCreate .up ⟨1, 100⟩ ⟨1000, 8, 0, false⟩ = .ok (cache, cpuCache, left) ∧
      cache.num = 4 ∧ cache.objfreelist = true ∧ cache.freelistSize ≤ 1000 := by
  have created : kmemCacheCreate .up ⟨1, 100⟩ ⟨1000, 8, 0, false⟩ =
      .ok (⟨1000, 1000, 0x40000000, 4, 0, 4, false⟩, ⟨1, 1, []⟩, ⟨25, 76⟩) := by decide
  have layout := kmemCacheCreate_layout ⟨by decide, by decide⟩ ⟨3, by decide, by decide⟩ (by decide)
    created
  exact ⟨_, _, _, created, rfl, rfl, layout.2.2.2.2.1 rfl⟩

/-- A new per-cpu array is empty, and moves at least one and at most all of its entries. -/
theorem setupCpuCache_spec {state : SlabState} {chunk left : ReservedChunk} {cpuCache : ArrayCache}
    (created : setupCpuCache state chunk cache = .ok (cpuCache, left)) :
    cpuCache.entry = [] ∧ 0 < cpuCache.batchcount ∧ cpuCache.batchcount ≤ cpuCache.limit := by
  have allocated : ∀ {entries batchcount}, 0 < batchcount → batchcount ≤ entries →
      allocKmemCacheCpus chunk entries batchcount = .ok (cpuCache, left) →
      cpuCache.entry = [] ∧ 0 < cpuCache.batchcount ∧ cpuCache.batchcount ≤ cpuCache.limit := by
    intro entries batchcount positive most returns
    rw [allocKmemCacheCpus] at returns
    split at returns
    · cases returns
    · split at returns
      · cases returns
      · cases returns
        exact ⟨rfl, positive, most⟩
  have limitPos : 0 < cpucacheLimit cache.size := by
    rw [cpucacheLimit]
    repeat' split
    all_goals decide
  cases state with
  | full => exact allocated (by omega) (by omega) created
  | down | partly | partlyNode | up => exact allocated one_pos le_rfl created

end Xlinux
