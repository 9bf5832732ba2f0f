/-
This file models the way of a bio through a request queue: `submit_bio`
(`block/blk-core.c`, `block/blk-mq.c`) attaches it to a request, which the deadline
scheduler (`block/mq-deadline.c`) takes in and hands out again to
`virtio_queue_rq` (`virtio_blk/virtio_blk.c`); the interrupt of the device puts
the request into the list of the softirq, which ends its bios.

The work item of the hardware queue is processed by the one who queues it
(`workqueue/workqueue.c`), and a softirq runs when the interrupt that raised it
exits (`softirq/softirq.c`), so that a call of `submit_bio` and an interrupt are
one step each. The lists are the source's doubly linked lists, since a request is
put into them again while it is in them.
-/

import Xlinux.Block.Bio
import Xlinux.Lib.ListHeads

namespace Xlinux

open Function (update)

/-! ### The state -/

/-- `struct virtblk_req`: the header and the status that the device writes. -/
structure VirtblkReq where
  type : UInt32
  ioprio : UInt32
  sector : UInt64
  status : UInt8
  deriving DecidableEq, Repr

/-- The fields of `struct request` that are read here, with the driver's data behind it. -/
structure Request where
  cmdFlags : UInt32
  dataLen : UInt32
  sector : UInt64
  bio : Option Nat
  ioprio : UInt16
  pdu : VirtblkReq
  deriving DecidableEq, Repr

/-- The `struct list_head`s: the heads of the two lists of the scheduler, of the local lists of
`blk_mq_sched_insert_request` and `__blk_mq_do_dispatch_sched`, of the softirq's list and its local
list, and the two members of a request. -/
inductive ListNode
  | fifoList (write : Bool)
  | list
  | rqList
  | queuelist (rq : UInt64)
  | blkCpuDone
  | localList
  | ipiList (rq : UInt64)
  deriving DecidableEq, Repr

/-- `sizeof(struct request)`. -/
def sizeofRequest : UInt64 := 112

/-- `sizeof(struct virtio_blk_outhdr)`. -/
def sizeofOuthdr : UInt32 := 16

/-- What does not change: the size of the virtqueue, which is one that virtio allows, the number of
virtqueues, the addresses of the requests, the entries of a scatterlist, the offset of physical
addresses, and what `queued + errors` of `blk_mq_dispatch_rq_list`, which has no initial value, is
made of. -/
structure BlkQueue where
  num : UInt32
  nrHwQueues : UInt32
  staticRqs : UInt32 → UInt64
  sgElems : UInt32
  vaPaOffset : UInt64
  uninitialized : UInt32
  num_eq : ∃ shift ≤ 15, num.toNat = 2 ^ shift
  pdu_ne : ∀ tag, staticRqs tag + sizeofRequest ≠ 0

/-- `nr_requests` as `blk_mq_init_sched` sets it. -/
def BlkQueue.nrRequests (queue : BlkQueue) : UInt32 := 2 * min queue.num 128

/-- What a descriptor was given to the device for: the bio, and the request it was attached to. -/
structure Flight where
  bio : Option Nat
  rq : UInt64
  deriving DecidableEq, Repr

/-- The queue, its bios, and what happened to them: those submitted, the status that the device
reported for each, and those ended with the status that the owner sees. -/
structure BlkWorld where
  vq : VqWorld
  bios : Nat → Bio
  requests : UInt64 → Request
  lists : ListHeads ListNode
  softirqPending : Bool
  flights : Nat → Flight
  submitted : List Nat
  reported : Nat → Option UInt8
  ended : List (Nat × UInt8)

/-- `blk_mq_rq_to_pdu`. -/
def blkMqRqToPdu (rq : UInt64) : UInt64 := rq + sizeofRequest

/-- `blk_mq_rq_from_pdu`. -/
def blkMqRqFromPdu (pdu : UInt64) : UInt64 := pdu - sizeofRequest

/-! ### The scheduler -/

/-- `list_entry` for a member `queuelist`. -/
def rqEntry : ListNode → Kernel UInt64
  | .queuelist rq => .ok rq
  | _ => .error .outOfBounds

/-- `rq_data_dir`. -/
def rqDataDir (rq : Request) : Bool := rq.cmdFlags &&& reqOpMask &&& 1 ≠ 0

/-- `dd_insert_requests`. -/
def ddInsertRequests (dir : UInt64 → Bool) : Nat → ListHeads ListNode → Kernel (ListHeads ListNode)
  | 0, _ => .error .endless
  | turns + 1, lists =>
    if lists.next .list = .list then .ok lists
    else do
      let rq ← rqEntry (lists.next .list)
      let lists := lists.delInit (.queuelist rq)
      ddInsertRequests dir turns (lists.addTail (.queuelist rq) (.fifoList (dir rq)))

/-- `dd_has_work`. -/
def ddHasWork (lists : ListHeads ListNode) : Bool :=
  lists.next (.fifoList false) ≠ .fifoList false ∨ lists.next (.fifoList true) ≠ .fifoList true

/-- `deadline_fifo_request`. -/
def deadlineFifoRequest (lists : ListHeads ListNode) (write : Bool) : Kernel (Option UInt64) :=
  if lists.next (.fifoList write) = .fifoList write then .ok none
  else some <$> rqEntry (lists.next (.fifoList write))

/-- `__dd_dispatch_request`; the requests in `next_rq` are always `NULL`. -/
def ddDispatchRequest (lists : ListHeads ListNode) :
    Kernel (Option UInt64 × ListHeads ListNode) := do
  -- A write goes before the reads.
  let write ← deadlineFifoRequest lists true
  let dir := write.isSome
  match ← deadlineFifoRequest lists dir with
  | none => return (none, lists)
  | some rq => return (some rq, lists.delInit (.queuelist rq))

/-- The loop of `__blk_mq_do_dispatch_sched`. -/
def dispatchSchedLoop : Nat → ListHeads ListNode → Kernel (ListHeads ListNode)
  | 0, lists => .ok lists
  | count + 1, lists =>
    if !ddHasWork lists then .ok lists
    else do
      let (rq, lists) ← ddDispatchRequest lists
      match rq with
      | none => .error (.panic "%s: bad request!")
      | some rq => dispatchSchedLoop count (lists.addTail (.queuelist rq) .rqList)

/-! ### The driver -/

/-- `__pa`. -/
def BlkQueue.phys (queue : BlkQueue) (addr : UInt64) : UInt64 := addr - queue.vaPaOffset

/-- The lists of `virtblk_add_req` that the device reads and those it writes. -/
def virtblkSgs (queue : BlkQueue) (pdu : UInt64) (out : Bool) (data : List Scatter) :
    List Scatter × List Scatter :=
  let hdr : Scatter := ⟨queue.phys pdu, sizeofOuthdr⟩
  let status : Scatter := ⟨queue.phys (pdu + sizeofOuthdr.toUInt64), 1⟩
  if out then (hdr :: data, [status]) else ([hdr], data ++ [status])

/-- `virtio_queue_rq`, where `desc` is the memory of the indirect table and `pa` its physical
address. -/
def virtioQueueRq (queue : BlkQueue) (desc pa : UInt64) (world : BlkWorld) (rq : UInt64) :
    Kernel BlkWorld := do
  let req := world.requests rq
  let op := req.cmdFlags &&& reqOpMask
  if op ≠ reqOpRead ∧ op ≠ reqOpWrite then throw (.panic "bad op(%d)")
  let sgs ← blkRqMapSg world.bios req.bio queue.sgElems
  let out := rqDataDir req
  let pdu : VirtblkReq := ⟨if out then 1 else 0, req.ioprio.toUInt32, req.sector, req.pdu.status⟩
  let (outSgs, inSgs) := virtblkSgs queue (blkMqRqToPdu rq) out sgs
  let vq ← virtqueueAddSgs world.vq.vq outSgs inSgs (blkMqRqToPdu rq) desc pa
  return { world with
    vq := { world.vq with vq, added := world.vq.added ++ [blkMqRqToPdu rq] }
    requests := update world.requests rq { req with pdu }
    flights := update world.flights world.vq.vq.freeHead.toNat ⟨req.bio, rq⟩ }

/-- The loop of `blk_mq_dispatch_rq_list`, with the number of requests. -/
def dispatchRqLoop (queue : BlkQueue) (desc pa : UInt64) : Nat → BlkWorld →
    Kernel (UInt32 × BlkWorld)
  | 0, _ => .error .endless
  | turns + 1, world => do
    let rq ← rqEntry (world.lists.next .rqList)
    let world := { world with lists := world.lists.delInit (.queuelist rq) }
    let world ← virtioQueueRq queue desc pa world rq
    if world.lists.next .rqList = .rqList then return (1, world)
    let (queued, world) ← dispatchRqLoop queue desc pa turns world
    return (queued + 1, world)

/-- `blk_mq_dispatch_rq_list`. -/
def blkMqDispatchRqList (queue : BlkQueue) (desc pa : UInt64) (world : BlkWorld) :
    Kernel (Bool × BlkWorld) := do
  if world.lists.next .rqList = .rqList then return (false, world)
  let (queued, world) ← dispatchRqLoop queue desc pa maxTurns world
  return (queue.uninitialized + queued ≠ 0, world)

/-- `blk_mq_do_dispatch_sched`. -/
def blkMqDoDispatchSched (queue : BlkQueue) (desc pa : UInt64) : Nat → BlkWorld → Kernel BlkWorld
  | 0, _ => .error .endless
  | turns + 1, world => do
    let lists ← dispatchSchedLoop (max 1 queue.nrRequests.toNat) (world.lists.init .rqList)
    let (dispatched, world) ← blkMqDispatchRqList queue desc pa { world with lists }
    if dispatched then blkMqDoDispatchSched queue desc pa turns world else return world

/-! ### Submitting -/

/-- `__blk_mq_alloc_request`. The hardware context of polled requests is never set. -/
def blkMqAllocRequest (queue : BlkQueue) (world : BlkWorld) (cmdFlags : UInt32) :
    Kernel (UInt64 × BlkWorld) :=
  let tag := 1
  if cmdFlags &&& reqHipri ≠ 0 then .error .nullPointer
  else if tag ≥ queue.nrRequests then .error .outOfBounds
  else
    let rq := queue.staticRqs tag
    .ok (rq, { world with
      requests := update world.requests rq { world.requests rq with cmdFlags }
      lists := world.lists.init (.queuelist rq) })

/-- `blk_mq_bio_to_request`. -/
def blkMqBioToRequest (world : BlkWorld) (rq : UInt64) (bio : Nat) : BlkWorld :=
  { world with
    requests := update world.requests rq { world.requests rq with
      sector := (world.bios bio).biIter.biSector
      dataLen := (world.bios bio).biIter.biSize
      bio := some bio
      ioprio := (world.bios bio).biIoprio } }

/-- `blk_mq_sched_insert_request`, which runs the hardware queue. -/
def blkMqSchedInsertRequest (queue : BlkQueue) (desc pa : UInt64) (world : BlkWorld) (rq : UInt64) :
    Kernel BlkWorld := do
  let lists := (world.lists.init .list).add (.queuelist rq) .list
  let lists ← ddInsertRequests (fun rq => rqDataDir (world.requests rq)) maxTurns lists
  let world := { world with lists }
  if ddHasWork lists then blkMqDoDispatchSched queue desc pa maxTurns world else return world

/-- `blk_mq_submit_bio`. -/
def blkMqSubmitBio (queue : BlkQueue) (desc pa : UInt64) (world : BlkWorld) (bio : Nat) :
    Kernel BlkWorld := do
  let (rq, world) ← blkMqAllocRequest queue world (world.bios bio).biOpf
  blkMqSchedInsertRequest queue desc pa (blkMqBioToRequest world rq bio) rq

/-! ### Ending -/

/-- `virtblk_result`, with `BLK_STS_OK`, `BLK_STS_NOTSUPP` and `BLK_STS_IOERR`. -/
def virtblkResult (status : UInt8) : UInt8 :=
  if status = 0 then 0 else if status = 2 then 1 else 10

/-- `req_bio_endio`. -/
def reqBioEndio (world : BlkWorld) (bio : Nat) (nbytes : UInt32) (error : UInt8) :
    Kernel BlkWorld := do
  let one := world.bios bio
  let one := if error ≠ 0 then { one with biStatus := error } else one
  let iter ← bioAdvanceIter one one.biIter nbytes
  let one := { one with biIter := iter }
  return { world with
    bios := update world.bios bio one
    ended := if iter.biSize = 0 then world.ended ++ [(bio, one.biStatus)] else world.ended }

/-- The loop of `blk_update_request`. -/
def blkUpdateLoop (rq : UInt64) (error : UInt8) : Nat → UInt32 → BlkWorld → Kernel BlkWorld
  | 0, _, _ => .error .endless
  | turns + 1, nrBytes, world =>
    match (world.requests rq).bio with
    | none => .ok world
    | some bio => do
      let one := world.bios bio
      let bioBytes := min one.biIter.biSize nrBytes
      let world := if bioBytes = one.biIter.biSize then
        { world with
          requests := update world.requests rq { world.requests rq with bio := one.biNext } }
        else world
      let world ← reqBioEndio world bio bioBytes error
      if nrBytes - bioBytes = 0 then return world
      blkUpdateLoop rq error turns (nrBytes - bioBytes) world

/-- `blk_update_request`. -/
def blkUpdateRequest (world : BlkWorld) (rq : UInt64) (error : UInt8) (nrBytes : UInt32) :
    Kernel BlkWorld := do
  if (world.requests rq).bio = none then return world
  let world ← blkUpdateLoop rq error maxTurns nrBytes world
  if (world.requests rq).bio = none then
    return { world with
      requests := update world.requests rq { world.requests rq with dataLen := 0 } }
  throw (.panic "%s: nr_bytes(%u)!")

/-- `virtblk_request_done`. -/
def virtblkRequestDone (world : BlkWorld) (rq : UInt64) : Kernel BlkWorld :=
  blkUpdateRequest world rq (virtblkResult (world.requests rq).pdu.status)
    (world.requests rq).dataLen

/-- `blk_mq_complete_request`, with `blk_mq_trigger_softirq`. -/
def blkMqCompleteRequest (queue : BlkQueue) (world : BlkWorld) (rq : UInt64) : Kernel BlkWorld :=
  if (world.requests rq).cmdFlags &&& reqHipri ≠ 0 ∨ queue.nrHwQueues > 1 then .error .bug
  else
    let lists := world.lists.addTail (.ipiList rq) .blkCpuDone
    .ok { world with
      lists
      softirqPending := world.softirqPending || lists.next .blkCpuDone = .ipiList rq }

/-- The inner loop of `virtblk_done`. -/
def virtblkDoneLoop (queue : BlkQueue) : Nat → BlkWorld → Kernel BlkWorld
  | 0, _ => .error .endless
  | turns + 1, world => do
    let (vbr, _, vq) ← virtqueueGetBuf world.vq.vq
    if vbr = 0 then return { world with vq := { world.vq with vq } }
    let world := { world with vq := { world.vq with vq, returned := world.vq.returned ++ [vbr] } }
    let world ← blkMqCompleteRequest queue world (blkMqRqFromPdu vbr)
    virtblkDoneLoop queue turns world

/-- `virtblk_done`; the condition of its loop is that of `virtqueue_enable_cb`. -/
def virtblkDone (queue : BlkQueue) : Nat → BlkWorld → Kernel BlkWorld
  | 0, _ => .error .endless
  | turns + 1, world => do
    let world ← virtblkDoneLoop queue maxTurns world
    if world.vq.vq.broken ∨ world.vq.vq.lastUsedIdx = world.vq.vq.vring.usedIdx then return world
    virtblkDone queue turns world

/-- The loop of `blk_done_softirq`. -/
def blkDoneLoop : Nat → BlkWorld → Kernel BlkWorld
  | 0, _ => .error .endless
  | turns + 1, world =>
    match world.lists.next .localList with
    | .localList => .ok world
    | .ipiList rq => do
      let world := { world with lists := world.lists.delInit (.ipiList rq) }
      let world ← virtblkRequestDone world rq
      blkDoneLoop turns world
    | _ => .error .outOfBounds

/-- `blk_done_softirq`. -/
def blkDoneSoftirq (world : BlkWorld) : Kernel BlkWorld :=
  blkDoneLoop maxTurns { world with lists := world.lists.replaceInit .blkCpuDone .localList }

/-- An interrupt: `vring_interrupt`, and the softirq when it exits. -/
def blkInterrupt (queue : BlkQueue) (world : BlkWorld) : Kernel BlkWorld := do
  let world ←
    if world.vq.vq.lastUsedIdx = world.vq.vq.vring.usedIdx ∨ world.vq.vq.broken then pure world
    else virtblkDone queue maxTurns world
  if world.softirqPending then blkDoneSoftirq { world with softirqPending := false }
  else return world

/-! ### Runs -/

/-- A call of `submit_bio`, a step of the device, or its interrupt. -/
inductive BlkStep
  | submitBio (bio : Nat) (desc pa : UInt64)
  | consume
  | complete (head len : UInt32) (status : UInt8)
  | interrupt
  deriving DecidableEq, Repr

/-- A bio that is submitted is a new one, fits into the scatterlist, and there is memory for the
indirect table. -/
def maySubmit (queue : BlkQueue) (world : BlkWorld) (bio : Nat) (desc : UInt64) : Bool :=
  bio ∉ world.submitted ∧ (world.bios bio).Fresh ∧
    (world.bios bio).biIoVec.length ≤ queue.sgElems.toNat ∧ desc ≠ 0 ∧
    ((world.bios bio).biIoVec.length + 2) * sizeofVringDesc.toNat ≤ kmallocMaxCacheSize

/-- Take a step. -/
def blkStep (queue : BlkQueue) (world : BlkWorld) : BlkStep → Except Halt BlkWorld
  | .submitBio bio desc pa =>
    if maySubmit queue world bio desc then
      match blkMqSubmitBio queue desc pa world bio with
      | .error fault => .error (.fault fault)
      | .ok next => .ok { next with submitted := world.submitted ++ [bio] }
    else .error .misuse
  | .consume =>
    match vqStep world.vq .consume with
    | .error halt => .error halt
    | .ok vq => .ok { world with vq }
  | .complete head len status =>
    match vqStep world.vq (.post head len) with
    | .error halt => .error halt
    | .ok vq =>
      let rq := blkMqRqFromPdu (world.vq.vq.descState head.toNat).data
      .ok { world with
        vq
        requests := update world.requests rq { world.requests rq with
          pdu := { (world.requests rq).pdu with status } }
        reported := match (world.flights head.toNat).bio with
          | none => world.reported
          | some bio => update world.reported bio (some status) }
  | .interrupt =>
    match blkInterrupt queue world with
    | .error fault => .error (.fault fault)
    | .ok next => .ok next

/-- A queue that was just set up. -/
def newBlkWorld (queue : BlkQueue) (bios : Nat → Bio) : BlkWorld where
  vq := newVqWorld queue.num
  bios
  requests _ := ⟨0, 0, 0, none, 0, ⟨0, 0, 0, 0⟩⟩
  lists := ⟨id, id⟩
  softirqPending := false
  flights _ := ⟨none, 0⟩
  submitted := []
  reported _ := none
  ended := []

end Xlinux
