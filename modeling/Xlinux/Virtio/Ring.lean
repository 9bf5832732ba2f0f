/-
This file models the split virtqueue of `virtio/virtio_ring.c`: the descriptor
table with the chain of free descriptors, the ring of available heads that the
driver writes, the ring of used elements that the device writes, and the driver's
own state. `virtqueue_add` takes the first free descriptor for an indirect table
and publishes it, `virtqueue_get_buf` takes the next used element and gives its
descriptor back.
-/

import Xlinux.Kernel
import Xlinux.Lib.Ring
import Xlinux.Word

namespace Xlinux

open Function (update)

/-! ### The state -/

/-- `struct vring_desc`. -/
structure VringDesc where
  addr : UInt64
  len : UInt32
  flags : UInt16
  next : UInt16
  deriving DecidableEq, Repr

/-- `struct vring_used_elem`. -/
structure VringUsedElem where
  id : UInt32
  len : UInt32
  deriving DecidableEq, Repr

/-- `struct vring`, with the memory that the driver and the device share. -/
structure Vring where
  num : UInt32
  desc : Nat → VringDesc
  availIdx : UInt16
  availRing : Nat → UInt16
  usedIdx : UInt16
  usedRing : Nat → VringUsedElem

/-- `struct vring_desc_state_split`. -/
structure VringDescState where
  data : UInt64
  indirDesc : UInt64
  deriving DecidableEq, Repr

/-- The fields of `struct vring_virtqueue` that are read here, with the indirect tables. -/
structure Virtqueue where
  vring : Vring
  broken : Bool
  indirect : Bool
  useDmaApi : Bool
  freeHead : UInt32
  numFree : UInt32
  numAdded : UInt32
  lastUsedIdx : UInt16
  availIdxShadow : UInt16
  descState : Nat → VringDescState
  tables : UInt64 → List VringDesc

/-- An entry of a scatterlist: its physical address and its length. -/
structure Scatter where
  phys : UInt64
  length : UInt32
  deriving DecidableEq, Repr

/-- `VRING_DESC_F_NEXT`. -/
def vringDescFNext : UInt16 := 1

/-- `VRING_DESC_F_WRITE`. -/
def vringDescFWrite : UInt16 := 2

/-- `VRING_DESC_F_INDIRECT`. -/
def vringDescFIndirect : UInt16 := 4

/-- `sizeof(struct vring_desc)`. -/
def sizeofVringDesc : UInt32 := 16

/-! ### The driver -/

/-- `__vring_new_virtqueue`, in memory of zeros, with indirect descriptors negotiated. -/
def vringNewVirtqueue (num : UInt32) : Virtqueue where
  vring.num := num
  vring.desc i := ⟨0, 0, 0, if i < num.toNat - 1 then UInt16.ofNat (i + 1) else 0⟩
  vring.availIdx := 0
  vring.availRing _ := 0
  vring.usedIdx := 0
  vring.usedRing _ := ⟨0, 0⟩
  broken := false
  indirect := true
  useDmaApi := false
  freeHead := 0
  numFree := num
  numAdded := 0
  lastUsedIdx := 0
  availIdxShadow := 0
  descState _ := ⟨0, 0⟩
  tables _ := []

/-- The entries of an indirect table for some scatter entries, from index `i` on. -/
def fillTable (flags : UInt16) : Nat → List Scatter → List VringDesc
  | _, [] => []
  | i, sg :: rest => ⟨sg.phys, sg.length, flags, UInt16.ofNat (i + 1)⟩ :: fillTable flags
    (i + 1) rest

/-- The indirect table: the entries the device reads, those it writes, and no next one at the
end. -/
def indirectTable (outSgs inSgs : List Scatter) : List VringDesc :=
  let table := fillTable vringDescFNext 0 outSgs ++
    fillTable (vringDescFNext ||| vringDescFWrite) outSgs.length inSgs
  table.dropLast ++ table.getLast?.toList.map fun desc =>
    { desc with flags := desc.flags &&& ~~~vringDescFNext }

/-- `vm_notify`. -/
def vmNotify : Bool := true

/-- `virtqueue_kick`. -/
def virtqueueKick (vq : Virtqueue) : Virtqueue :=
  if vq.broken then vq else if vmNotify then vq else { vq with broken := true }

/-- The cell of a ring for a 16-bit index. -/
def ringCell (num : UInt32) (idx : UInt16) : Nat := (idx.toUInt32 &&& (num - 1)).toNat

/-- The head of `virtqueue_add_split` gets an indirect table. -/
def setHead (vq : Virtqueue) (head : Nat) (addr : UInt64) (len : UInt32) (state : VringDescState) :
    Virtqueue :=
  { vq with
    vring.desc := update vq.vring.desc head
      { vq.vring.desc head with flags := vringDescFIndirect, addr, len }
    descState := update vq.descState head state }

/-- The head of `virtqueue_add_split` is published. -/
def publish (vq : Virtqueue) (head : UInt32) : Virtqueue :=
  { vq with
    vring.availRing := update vq.vring.availRing (ringCell vq.vring.num vq.availIdxShadow)
      head.toUInt16
    vring.availIdx := vq.availIdxShadow + 1
    availIdxShadow := vq.availIdxShadow + 1
    numAdded := vq.numAdded + 1 }

/-- `virtqueue_add_split`, where `desc` is what `kmalloc_array` returned for the table and `pa` its
physical address. -/
def virtqueueAddSplit (vq : Virtqueue) (outSgs inSgs : List Scatter) (totalSg : UInt32)
    (data desc pa : UInt64) : Kernel Virtqueue :=
  if ¬(vq.indirect ∧ totalSg > 1 ∧ vq.numFree ≠ 0) then .error .bug
  else if desc = 0 then .error (.panic "out of memory!")
  else if vq.freeHead ≥ vq.vring.num then .error .outOfBounds
  else
    let head := vq.freeHead
    let vq := { vq with tables := update vq.tables desc (indirectTable outSgs inSgs) }
    let vq := setHead vq head.toNat pa (totalSg * sizeofVringDesc) ⟨data, desc⟩
    let vq := { vq with
      numFree := vq.numFree - 1
      freeHead := (vq.vring.desc head.toNat).next.toUInt32 }
    let vq := publish vq head
    .ok (if vq.numAdded = 0xffff then virtqueueKick vq else vq)

/-- `virtqueue_add_sgs`: the entries are counted first. -/
def virtqueueAddSgs (vq : Virtqueue) (outSgs inSgs : List Scatter) (data desc pa : UInt64) :
    Kernel Virtqueue :=
  virtqueueAddSplit vq outSgs inSgs (UInt32.ofNat (outSgs.length + inSgs.length)) data desc pa

/-- `vring_unmap_one_split`. -/
def vringUnmapOneSplit (vq : Virtqueue) : Kernel Unit :=
  if vq.useDmaApi then .error (.panic "use dma api!") else .ok ()

/-- The loop of `detach_buf_split` to the last descriptor of a chain. -/
def detachLoop : Nat → Virtqueue → Nat → Kernel (Virtqueue × Nat)
  | 0, _, _ => .error .endless
  | turns + 1, vq, i =>
    if i ≥ vq.vring.num.toNat then .error .outOfBounds
    else if (vq.vring.desc i).flags &&& vringDescFNext = 0 then .ok (vq, i)
    else do
      vringUnmapOneSplit vq
      detachLoop turns { vq with numFree := vq.numFree + 1 } (vq.vring.desc i).next.toNat

/-- The indirect table of a head is freed. -/
def freeIndirect (vq : Virtqueue) (head : Nat) : Kernel Virtqueue :=
  if vq.indirect then
    if (vq.descState head).indirDesc = 0 then .ok vq
    else if (vq.vring.desc head).flags &&& vringDescFIndirect = 0 then .error .bug
    else if (vq.vring.desc head).len = 0 ∨ (vq.vring.desc head).len % sizeofVringDesc ≠ 0 then
      .error .bug
    else do
      vringUnmapOneSplit vq
      return { vq with
        descState := update vq.descState head ⟨(vq.descState head).data, 0⟩ }
  else .error (.panic "not indirect!")

/-- `detach_buf_split`. -/
def detachBufSplit (vq : Virtqueue) (head : UInt32) : Kernel Virtqueue := do
  let vq := { vq with
    descState := update vq.descState head.toNat ⟨0, (vq.descState head.toNat).indirDesc⟩ }
  let (vq, i) ← detachLoop maxTurns vq head.toNat
  vringUnmapOneSplit vq
  let vq := { vq with
    vring.desc := update vq.vring.desc i { vq.vring.desc i with next := vq.freeHead.toUInt16 }
    freeHead := head
    numFree := vq.numFree + 1 }
  freeIndirect vq head.toNat

/-- `virtqueue_get_buf`: the token, or `NULL`, and the length that was written. -/
def virtqueueGetBuf (vq : Virtqueue) : Kernel (UInt64 × UInt32 × Virtqueue) :=
  if vq.broken then .ok (0, 0, vq)
  else if vq.lastUsedIdx = vq.vring.usedIdx then .ok (0, 0, vq)
  else
    let elem := vq.vring.usedRing (ringCell vq.vring.num vq.lastUsedIdx)
    if elem.id ≥ vq.vring.num then .error (.panic "id %u out of range\n")
    else if (vq.descState elem.id.toNat).data = 0 then .error (.panic "id %u is not a head!\n")
    else do
      let ret := (vq.descState elem.id.toNat).data
      let vq ← detachBufSplit vq elem.id
      return (ret, elem.len, { vq with lastUsedIdx := vq.lastUsedIdx + 1 })

/-! ### The device -/

/-- An honest device: the available entries it has seen, and the heads it works on. -/
structure VirtioDevice where
  lastAvailIdx : UInt16
  held : List UInt32
  deriving DecidableEq, Repr

/-- The driver and the device, with the tokens that were added and those that were returned. -/
structure VqWorld where
  vq : Virtqueue
  device : VirtioDevice
  added : List UInt64
  returned : List UInt64

/-- A step of the driver or of the device. -/
inductive VqStep
  | add (outSgs inSgs : List Scatter) (data desc pa : UInt64)
  | getBuf
  | consume
  | post (head len : UInt32)

/-- `KMALLOC_MAX_CACHE_SIZE`. -/
def kmallocMaxCacheSize : Nat := 2 ^ 22

/-- A call of `virtqueue_add` that the driver may make: two entries or more, a token, a free
descriptor, and memory for the table, which `kmalloc` only has up to its largest size. -/
def mayAdd (vq : Virtqueue) (outSgs inSgs : List Scatter) (data desc : UInt64) : Bool :=
  2 ≤ outSgs.length + inSgs.length ∧ data ≠ 0 ∧ vq.numFree ≠ 0 ∧ desc ≠ 0 ∧
    (outSgs.length + inSgs.length) * sizeofVringDesc.toNat ≤ kmallocMaxCacheSize

/-- The device takes the next available head. -/
def deviceConsume (vring : Vring) (device : VirtioDevice) : VirtioDevice where
  lastAvailIdx := device.lastAvailIdx + 1
  held := device.held ++ [(vring.availRing (ringCell vring.num device.lastAvailIdx)).toUInt32]

/-- The device puts a head into the used ring. -/
def devicePost (vring : Vring) (head len : UInt32) : Vring :=
  { vring with
    usedRing := update vring.usedRing (ringCell vring.num vring.usedIdx) ⟨head, len⟩
    usedIdx := vring.usedIdx + 1 }

/-- Take a step. Adding without the preconditions, consuming what is not published and posting what
is not held are misuse. -/
def vqStep (world : VqWorld) : VqStep → Except Halt VqWorld
  | .add outSgs inSgs data desc pa =>
    if mayAdd world.vq outSgs inSgs data desc then
      match virtqueueAddSgs world.vq outSgs inSgs data desc pa with
      | .error fault => .error (.fault fault)
      | .ok vq => .ok { world with vq, added := world.added ++ [data] }
    else .error .misuse
  | .getBuf =>
    match virtqueueGetBuf world.vq with
    | .error fault => .error (.fault fault)
    | .ok (ret, _, vq) =>
      .ok { world with vq, returned := if ret = 0 then world.returned else world.returned ++ [ret] }
  | .consume =>
    if world.device.lastAvailIdx = world.vq.vring.availIdx then .error .misuse
    else .ok { world with device := deviceConsume world.vq.vring world.device }
  | .post head len =>
    if head ∈ world.device.held then
      .ok { world with
        vq := { world.vq with vring := devicePost world.vq.vring head len }
        device := { world.device with held := world.device.held.erase head } }
    else .error .misuse

/-- A new queue with a device that has seen nothing. -/
def newVqWorld (num : UInt32) : VqWorld := ⟨vringNewVirtqueue num, ⟨0, []⟩, [], []⟩

end Xlinux
