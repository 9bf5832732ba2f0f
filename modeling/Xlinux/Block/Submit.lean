/-
This file follows a bio through `submit_bio` when the lists of the scheduler are
empty, as they are between two calls: the request of the bio goes into one of
them, comes out again and is given to the virtqueue, and the lists are empty as
before.
-/

import Xlinux.Block.Queue

namespace Xlinux

open ListHeads Kernel
open Function

/-! ### The lists -/

/-- The lists that are empty between two steps. -/
structure ListsIdle (lists : ListHeads ListNode) : Prop where
  fifo : ∀ write, lists.Empty (.fifoList write)
  done : lists.Empty .blkCpuDone

theorem ListsIdle.keeps {lists later : ListHeads ListNode} {touched : List ListNode}
    (idle : ListsIdle lists) (keeps : lists.Keeps later touched)
    (fifo : ∀ write, .fifoList write ∉ touched) (done : .blkCpuDone ∉ touched) :
    ListsIdle later where
  fifo write := (idle.fifo write).keeps keeps (fifo write)
  done := idle.done.keeps keeps done

section Lists

variable {lists : ListHeads ListNode} {rq : UInt64} {write : Bool}

theorem ddInsertRequests_single (single : lists.Single .list (.queuelist rq))
    (idle : ListsIdle lists) (dir : UInt64 → Bool) (turns : Nat) :
    ∃ later, ddInsertRequests dir (turns + 2) lists = .ok later ∧
      later.Single (.fifoList (dir rq)) (.queuelist rq) ∧
      later.Empty (.fifoList (!dir rq)) ∧ later.Empty .blkCpuDone := by
  have removed := single.delInit_empty nofun
  have kept : ListsIdle (lists.delInit (.queuelist rq)) :=
    idle.keeps single.delInit_keeps (fun write => by simp) (by simp)
  have empty := kept.fifo (dir rq)
  have keeps : (lists.delInit (.queuelist rq)).Keeps _ [.fifoList (dir rq), .queuelist rq] :=
    addBetween_keeps
  have stays := removed.keeps keeps (by simp)
  refine ⟨(lists.delInit (.queuelist rq)).addBetween (.queuelist rq) (.fifoList (dir rq))
    (.fifoList (dir rq)), ?_, addBetween_single nofun, (kept.fifo _).keeps keeps (by simp),
    kept.done.keeps keeps (by simp)⟩
  rw [ddInsertRequests, single.first, if_neg nofun, rqEntry, ok_bind]
  dsimp only
  rw [empty.addTail_eq, ddInsertRequests, if_pos stays.next]

section

theorem dispatchSchedLoop_empty (empty : ∀ write, lists.Empty (.fifoList write)) (count : Nat) :
    dispatchSchedLoop (count + 1) lists = .ok lists := by
  rw [dispatchSchedLoop, ddHasWork, (empty false).next, (empty true).next]
  rfl

variable (single : lists.Single (.fifoList write) (.queuelist rq))

include single

theorem ddHasWork_of_single : ddHasWork lists = true := by
  have some : lists.next (.fifoList write) ≠ .fifoList write := by
    rw [single.first]
    exact nofun
  unfold ddHasWork
  cases write with
  | false => exact decide_eq_true (.inl some)
  | true => exact decide_eq_true (.inr some)

theorem ddDispatchRequest_single (other : lists.Empty (.fifoList !write)) :
    ddDispatchRequest lists = .ok (some rq, lists.delInit (.queuelist rq)) := by
  have found : deadlineFifoRequest lists write = .ok (some rq) := by
    rw [deadlineFifoRequest, single.first]
    rfl
  unfold ddDispatchRequest
  cases write with
  | false =>
    have none : deadlineFifoRequest lists true = .ok none := if_pos other.next
    rw [none, ok_bind]
    dsimp only [Option.isSome]
    rw [found]
    rfl
  | true =>
    rw [found, ok_bind]
    dsimp only [Option.isSome]
    rw [found]
    rfl

theorem dispatchSchedLoop_single (other : lists.Empty (.fifoList !write))
    (done : lists.Empty .blkCpuDone) (rqList : lists.Empty .rqList) (count : Nat) :
    ∃ later, dispatchSchedLoop (count + 2) lists = .ok later ∧ ListsIdle later ∧
      later.Single .rqList (.queuelist rq) := by
  have removed := single.delInit_empty nofun
  have keeps := single.delInit_keeps
  have added : (lists.delInit (.queuelist rq)).Keeps _ [.rqList, .queuelist rq] := addBetween_keeps
  have fifo : ∀ dir, (lists.delInit (.queuelist rq)).Empty (.fifoList dir) := by
    intro dir
    by_cases same : dir = write
    · exact same ▸ removed
    · rw [show dir = !write by cases dir <;> cases write <;> simp_all]
      exact other.keeps keeps (by simp)
  have idle : ListsIdle (lists.delInit (.queuelist rq)) := ⟨fifo, done.keeps keeps (by simp)⟩
  have kept := idle.keeps added (by simp) (by simp)
  refine ⟨_, ?_, kept, addBetween_single nofun⟩
  rw [dispatchSchedLoop, ddHasWork_of_single single, Bool.not_true, if_neg Bool.false_ne_true,
    ddDispatchRequest_single single other, ok_bind]
  dsimp only
  rw [(rqList.keeps keeps (by simp)).addTail_eq]
  exact dispatchSchedLoop_empty kept.fifo count

end

end Lists

/-! ### The request -/

/-- The request of a bio after it was prepared for the device. -/
def preparedRequest (world : BlkWorld) (rq : UInt64) (bio : Nat) : Request where
  cmdFlags := (world.bios bio).biOpf
  dataLen := (world.bios bio).biIter.biSize
  sector := (world.bios bio).biIter.biSector
  bio := some bio
  ioprio := (world.bios bio).biIoprio
  pdu := (world.requests rq).pdu

/-- The direction of a bio. -/
def bioDir (bio : Bio) : Bool := bio.biOpf &&& reqOpMask &&& 1 ≠ 0

/-- The lists of entries that the virtqueue is given for a bio. -/
def bioSgs (queue : BlkQueue) (world : BlkWorld) (rq : UInt64) (bio : Nat) :
    List Scatter × List Scatter :=
  virtblkSgs queue (blkMqRqToPdu rq) (bioDir (world.bios bio))
    ((world.bios bio).biIoVec.map BioVec.scatter)

theorem length_bioSgs {queue : BlkQueue} {world : BlkWorld} {rq : UInt64} {bio : Nat} :
    (bioSgs queue world rq bio).1.length + (bioSgs queue world rq bio).2.length =
      (world.bios bio).biIoVec.length + 2 := by
  unfold bioSgs virtblkSgs
  split
  · simp only [List.length_cons, List.length_map, List.length_nil]
  · simp only [List.length_cons, List.length_nil, List.length_append, List.length_map]
    omega

/-- The state after the request of a bio was given to the device. -/
def dispatched (world : BlkWorld) (rq : UInt64) (bio : Nat)
    (lists : ListHeads ListNode) (vq : Virtqueue) : BlkWorld :=
  { world with
    vq := { world.vq with vq, added := world.vq.added ++ [blkMqRqToPdu rq] }
    requests := update world.requests rq { preparedRequest world rq bio with
      pdu := ⟨if bioDir (world.bios bio) then 1 else 0, (world.bios bio).biIoprio.toUInt32,
        (world.bios bio).biIter.biSector, (world.requests rq).pdu.status⟩ }
    lists
    flights := update world.flights world.vq.vq.freeHead.toNat ⟨some bio, rq⟩ }

/-- The descriptors of the request of a bio are added to the virtqueue. -/
def addBio (queue : BlkQueue) (world : BlkWorld) (rq : UInt64) (bio : Nat) (desc pa : UInt64) :
    Kernel Virtqueue :=
  virtqueueAddSgs world.vq.vq (bioSgs queue world rq bio).1 (bioSgs queue world rq bio).2
    (blkMqRqToPdu rq) desc pa

/-- The state with the request of a bio. -/
abbrev BlkWorld.prepared (world : BlkWorld) (rq : UInt64) (bio : Nat) (lists : ListHeads ListNode) :
    BlkWorld :=
  { world with
    lists
    requests := update world.requests rq (preparedRequest world rq bio) }

section Submit

variable {queue : BlkQueue} {world : BlkWorld} {bio : Nat} {rq : UInt64}
theorem BlkQueue.two_le_nrRequests (queue : BlkQueue) : 2 ≤ queue.nrRequests.toNat := by
  obtain ⟨shift, _, power⟩ := queue.num_eq
  have positive : 0 < queue.num.toNat := power ▸ Nat.two_pow_pos shift
  have least : min queue.num 128 = if queue.num ≤ 128 then queue.num else 128 := rfl
  unfold BlkQueue.nrRequests
  rw [UInt32.toNat_mul, least]
  split_ifs with few
  · have bound : queue.num.toNat ≤ 128 := UInt32.le_iff_toNat_le.mp few
    rw [show (2 : UInt32).toNat = 2 from rfl]
    omega
  · decide

variable (fresh : (world.bios bio).Fresh)
  (fits : (world.bios bio).biIoVec.length ≤ queue.sgElems.toNat)

include fresh fits

/-- `virtio_queue_rq` for a request of a fresh bio. -/
theorem virtioQueueRq_eq (desc pa : UInt64) (lists : ListHeads ListNode) :
    virtioQueueRq queue desc pa (world.prepared rq bio lists) rq =
      addBio queue world rq bio desc pa >>= fun vq => .ok (dispatched world rq bio lists vq) := by
  have op : ¬((world.bios bio).biOpf &&& reqOpMask ≠ reqOpRead ∧
      (world.bios bio).biOpf &&& reqOpMask ≠ reqOpWrite) := by
    rintro ⟨notRead, notWrite⟩
    exact fresh.op.elim notRead notWrite
  unfold virtioQueueRq
  simp only [update_self]
  rw [if_neg (show ¬((preparedRequest world rq bio).cmdFlags &&& reqOpMask ≠ reqOpRead ∧
    (preparedRequest world rq bio).cmdFlags &&& reqOpMask ≠ reqOpWrite) from op),
    show (preparedRequest world rq bio).bio = some bio from rfl, fresh.blkRqMapSg, if_pos fits]
  simp only [update_idem]
  rfl

/-- `blk_mq_dispatch_rq_list` gives the only request of the list to the device. -/
theorem blkMqDispatchRqList_single (desc pa : UInt64) {lists : ListHeads ListNode}
    (single : lists.Single .rqList (.queuelist rq)) :
    blkMqDispatchRqList queue desc pa (world.prepared rq bio lists) =
      addBio queue world rq bio desc pa >>= fun vq => .ok (decide (queue.uninitialized + 1 ≠ 0),
        dispatched world rq bio (lists.delInit (.queuelist rq)) vq) := by
  have empty := single.delInit_empty nofun
  unfold blkMqDispatchRqList
  rw [single.first, maxTurns_eq, dispatchRqLoop,
    single.first, rqEntry, ok_bind]
  dsimp only
  rw [virtioQueueRq_eq fresh fits]
  cases addBio queue world rq bio desc pa with
  | error fault => rfl
  | ok vq =>
    have after : (dispatched world rq bio (lists.delInit (.queuelist rq)) vq).lists.next .rqList =
        .rqList := empty.next
    rw [ok_bind, ok_bind, if_pos after]
    rfl

/-- The hardware queue is run until the scheduler has no work. -/
theorem blkMqDoDispatchSched_single (desc pa : UInt64) {lists : ListHeads ListNode} {write : Bool}
    (single : lists.Single (.fifoList write) (.queuelist rq))
    (other : lists.Empty (.fifoList !write)) (done : lists.Empty .blkCpuDone) (turns : Nat) :
    ∃ later, ListsIdle later ∧
      blkMqDoDispatchSched queue desc pa (turns + 2) (world.prepared rq bio lists) =
        addBio queue world rq bio desc pa >>= fun vq => .ok (dispatched world rq bio later vq) := by
  obtain ⟨count, enough⟩ : ∃ count, max 1 queue.nrRequests.toNat = count + 2 :=
    ⟨max 1 queue.nrRequests.toNat - 2, by have := queue.two_le_nrRequests; omega⟩
  obtain ⟨taken, looped, idle, inList⟩ := dispatchSchedLoop_single
    (single.keeps (init_keeps : lists.Keeps (lists.init .rqList) _) (by simp) (by simp))
    (other.keeps init_keeps (by simp)) (done.keeps init_keeps (by simp)) init_empty count
  have left : ListsIdle (taken.delInit (.queuelist rq)) :=
    idle.keeps inList.delInit_keeps (by simp) (by simp)
  have again : ListsIdle ((taken.delInit (.queuelist rq)).init .rqList) :=
    left.keeps init_keeps (by simp) (by simp)
  rw [blkMqDoDispatchSched, enough, looped, ok_bind]
  rw [blkMqDispatchRqList_single fresh fits desc pa inList]
  -- Whether the loop is entered again depends on a variable without a value.
  by_cases more : queue.uninitialized + 1 ≠ 0
  · refine ⟨_, again, ?_⟩
    cases addBio queue world rq bio desc pa with
    | error fault => rfl
    | ok vq =>
      rw [ok_bind, ok_bind]
      dsimp only
      rw [if_pos (decide_eq_true more), blkMqDoDispatchSched, enough,
        show (dispatched world rq bio (taken.delInit (.queuelist rq)) vq).lists =
          taken.delInit (.queuelist rq) from rfl,
        dispatchSchedLoop_empty again.fifo, ok_bind, blkMqDispatchRqList]
      rfl
  · refine ⟨_, left, ?_⟩
    cases addBio queue world rq bio desc pa with
    | error fault => rfl
    | ok vq =>
      rw [ok_bind, ok_bind]
      dsimp only
      rw [if_neg (by rw [decide_eq_false more]; exact Bool.false_ne_true)]
      rfl

/-- `submit_bio` gives the request of the bio to the virtqueue and leaves the lists empty. -/
theorem blkMqSubmitBio_eq (idle : ListsIdle world.lists) (desc pa : UInt64) :
    ∃ later, ListsIdle later ∧ blkMqSubmitBio queue desc pa world bio =
      addBio queue world (queue.staticRqs 1) bio desc pa >>=
        fun vq => .ok (dispatched world (queue.staticRqs 1) bio later vq) := by
  generalize same : queue.staticRqs 1 = rq
  have tag : ¬(1 : UInt32) ≥ queue.nrRequests := UInt32.not_le.mpr 
    (UInt32.lt_iff_toNat_lt.mpr queue.two_le_nrRequests)
  have hipri : ¬(world.bios bio).biOpf &&& reqHipri ≠ 0 := not_not.mpr fresh.hipri
  have inside : ListsIdle ((world.lists.init (.queuelist rq)).init .list) :=
    (idle.keeps init_keeps (by simp) (by simp)).keeps init_keeps (by simp) (by simp)
  have added :
      ListsIdle (((world.lists.init (.queuelist rq)).init .list).add (.queuelist rq) .list) := by
    exact inside.keeps addBetween_keeps (by simp) (by simp)
  have single : (((world.lists.init (.queuelist rq)).init .list).add (.queuelist rq) .list).Single
      .list (.queuelist rq) := by
    exact addBetween_single nofun
  obtain ⟨_, inserted, inFifo, other, done⟩ := ddInsertRequests_single single added
    (fun one => rqDataDir (update world.requests rq (preparedRequest world rq bio) one))
    18446744073709551614
  obtain ⟨later, left, ran⟩ := blkMqDoDispatchSched_single fresh fits desc pa inFifo other done
    18446744073709551614
  refine ⟨later, left, ?_⟩
  have prepared : blkMqBioToRequest { world with
      requests := update world.requests rq
        { world.requests rq with cmdFlags := (world.bios bio).biOpf }
      lists := world.lists.init (.queuelist rq) } rq bio =
        world.prepared rq bio (world.lists.init (.queuelist rq)) := by
    unfold blkMqBioToRequest
    simp only [update_idem, update_self]
    rfl
  rw [blkMqSubmitBio, blkMqAllocRequest]
  rw [if_neg hipri, if_neg tag, same, ok_bind]
  dsimp only
  rw [prepared, blkMqSchedInsertRequest, maxTurns_eq, inserted,
    ok_bind]
  rw [ddHasWork_of_single inFifo, if_pos rfl, ran]

end Submit

end Xlinux
