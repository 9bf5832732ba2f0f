/-
This file proves when a request queue serves its bios. There is a single request
in use, since `__blk_mq_alloc_request` always takes the same tag: as long as a bio
is submitted only after the one before it was ended, every bio is ended once, with
the status that the device reported for it. A bio that is submitted earlier takes
the request of the one in flight.
-/

import Xlinux.Block.Submit
import Xlinux.Virtio.Safety

namespace Xlinux

open ListHeads List Kernel
open Function

/-! ### The properties -/

/-- The bios in flight are attached to different requests, the bios that were submitted are those
that were ended and those in flight, and a bio is ended with the status that was reported for its
own request. -/
structure BlkWorld.Correct (world : BlkWorld) : Prop where
  distinct : (world.vq.inFlight.map fun head => (world.flights head).rq).Nodup
  once : ↑((world.ended.map Prod.fst).map some) +
      world.vq.inFlight.map (fun head => (world.flights head).bio) =
    (↑(world.submitted.map some) : Multiset (Option Nat))
  unique : world.submitted.Nodup
  status : ∀ done ∈ world.ended,
    ∃ status, world.reported done.1 = some status ∧ done.2 = virtblkResult status

/-- A step serves the bios: it is not allowed, or the kernel goes on correctly, and after an
interrupt nothing that the device has completed is left. -/
def Serves (_ : BlkWorld) (step : BlkStep) (result : Except Halt BlkWorld) : Prop :=
  result = .error .misuse ∨ ∃ next, result = .ok next ∧ next.Correct ∧
    (step = .interrupt → next.vq.vq.vring.posted next.vq.vq.lastUsedIdx = [])

/-- A bio is only submitted when all bios before it were ended, and an interrupt only finds
something to do when there is a single hardware queue. -/
def OneAtATime (queue : BlkQueue) (world : BlkWorld) (step : BlkStep)
    (result : Except Halt BlkWorld) : Prop :=
  result = .error .misuse ∨ match step with
    | .submitBio .. => ∀ bio ∈ world.submitted, bio ∈ world.ended.map Prod.fst
    | .interrupt => queue.nrHwQueues ≤ 1 ∨ world.vq.vq.lastUsedIdx = world.vq.vq.vring.usedIdx
    | _ => True

/-! ### Ending a bio -/

section Ending

variable {world : BlkWorld} {rq : UInt64} {bio : Nat}

/-- `req_bio_endio` for all bytes of a fresh bio. -/
theorem reqBioEndio_eq (world : BlkWorld) (fresh : (world.bios bio).Fresh) (error : UInt8) :
    ∃ bios, reqBioEndio world bio (world.bios bio).biIter.biSize error =
      .ok { world with bios, ended := world.ended ++ [(bio, error)] } := by
  obtain ⟨_, looped⟩ :=
    bvecAdvanceLoop_all (fun vec member => (fresh.vecs vec member).1) fresh.size 0
  have all : ∀ one : Bio, one.biOpf = (world.bios bio).biOpf →
      one.biIter = (world.bios bio).biIter → one.biIoVec = (world.bios bio).biIoVec →
      ∃ iter, bioAdvanceIter one one.biIter (world.bios bio).biIter.biSize = .ok iter ∧
        iter.biSize = 0 := by
    intro one opf iter vecs
    have advances : bioNoAdvanceIter one = false := by
      unfold bioNoAdvanceIter
      rw [opf]
      exact fresh.advances
    rw [bioAdvanceIter, advances, bvecIterAdvance, iter, vecs]
    rw [if_neg (UInt32.lt_irrefl _), fresh.idx, fresh.done, UInt32.add_zero]
    simp only [UInt32.toNat_zero, drop_zero, looped]
    exact ⟨_, rfl, UInt32.sub_self _⟩
  unfold reqBioEndio
  dsimp only
  split_ifs with failed
  · obtain ⟨iter, advanced, none⟩ := all { world.bios bio with biStatus := error } rfl rfl rfl
    rw [advanced, ok_bind]
    simp only [none]
    exact ⟨_, rfl⟩
  · obtain ⟨iter, advanced, none⟩ := all (world.bios bio) rfl rfl rfl
    rw [advanced, ok_bind]
    simp only [none, fresh.status, not_not.mp failed]
    exact ⟨_, rfl⟩

/-- `virtblk_request_done` ends the bio of the request with the status in its header. -/
theorem virtblkRequestDone_eq (attached : (world.requests rq).bio = some bio)
    (fresh : (world.bios bio).Fresh)
    (dataLen : (world.requests rq).dataLen = (world.bios bio).biIter.biSize) :
    ∃ bios requests, virtblkRequestDone world rq = .ok { world with
      bios
      requests
      ended := world.ended ++ [(bio, virtblkResult (world.requests rq).pdu.status)] } := by
  unfold virtblkRequestDone
  generalize virtblkResult (world.requests rq).pdu.status = error
  have some : ¬(world.requests rq).bio = none := by
    rw [attached]
    exact nofun
  obtain ⟨bios, ended⟩ := reqBioEndio_eq { world with
    requests := update world.requests rq { world.requests rq with bio := none } } fresh error
  have looped : blkUpdateLoop rq error maxTurns (world.requests rq).dataLen world = .ok { world with
      bios
      requests := update world.requests rq { world.requests rq with bio := none }
      ended := world.ended ++ [(bio, error)] } := by
    rw [maxTurns_eq, blkUpdateLoop, attached, dataLen]
    dsimp only
    rw [min_eq_right_of_le (UInt32.le_refl _), if_pos rfl, fresh.next, ended, ok_bind,
      UInt32.sub_self]
    rfl
  have detached : (update world.requests rq
      { world.requests rq with bio := none } rq).bio = none := by
    rw [update_self]
  rw [blkUpdateRequest, if_neg some, looped, ok_bind]
  rw [if_pos detached]
  exact ⟨bios, _, rfl⟩

end Ending

/-! ### The invariant -/

/-- A bio in flight with the request of tag 1. -/
structure BlkWorld.Flying (world : BlkWorld) (rq : UInt64) (head bio : Nat) : Prop where
  inFlight : world.vq.inFlight = {head}
  flight : world.flights head = ⟨some bio, rq⟩
  token : world.vq.vq.token head = blkMqRqToPdu rq
  attached : (world.requests rq).bio = some bio
  fresh : (world.bios bio).Fresh
  dataLen : (world.requests rq).dataLen = (world.bios bio).biIter.biSize
  hipri : (world.requests rq).cmdFlags &&& reqHipri = 0
  reported : world.vq.vq.vring.posted world.vq.vq.lastUsedIdx ≠ [] →
    world.reported bio = some (world.requests rq).pdu.status

/-- What every step keeps as long as one bio at a time is submitted. -/
structure BlkWorld.Good (queue : BlkQueue) (shift : Nat) (world : BlkWorld) : Prop where
  sound : world.vq.Sound shift
  lists : ListsIdle world.lists
  calm : world.softirqPending = false
  correct : world.Correct
  flying : world.vq.inFlight = 0 ∨ ∃ head bio, world.Flying (queue.staticRqs 1) head bio

section Steps

variable {queue : BlkQueue} {shift : Nat} {world : BlkWorld} {head bio : Nat} {rq : UInt64}
variable {desc : UInt64}

theorem BlkWorld.Correct.not_ended (correct : world.Correct) (flying : world.Flying rq head bio) :
    bio ∉ world.ended.map Prod.fst := by
  have unique : (↑(world.submitted.map some) : Multiset (Option Nat)).Nodup :=
    Multiset.coe_nodup.mpr (correct.unique.map (Option.some_injective _))
  rw [← correct.once, flying.inFlight, Multiset.map_singleton, flying.flight,
    Multiset.nodup_add] at unique
  exact fun ended => Multiset.disjoint_left.mp unique.2.2 (mem_map_of_mem ended)
    (mem_singleton_self _)

/-- All bios were ended exactly when nothing is in flight. -/
theorem BlkWorld.Good.inFlight_eq_zero_iff (good : world.Good queue shift) :
    (∀ bio ∈ world.submitted, bio ∈ world.ended.map Prod.fst) ↔ world.vq.inFlight = 0 := by
  have once := good.correct.once
  constructor
  · intro all
    rcases good.flying with none | ⟨head, bio, flying⟩
    · exact none
    · rw [flying.inFlight, Multiset.map_singleton, flying.flight] at once
      have there : some bio ∈ (↑(world.submitted.map some) : Multiset (Option Nat)) :=
        once ▸ Multiset.mem_add.mpr (.inr (mem_singleton_self _))
      have member := (mem_map_of_injective (Option.some_injective _)).mp there
      exact absurd (all bio member) (good.correct.not_ended flying)
  · intro none bio member
    rw [none, Multiset.map_zero, add_zero] at once
    have there : some bio ∈ (↑(world.submitted.map some) : Multiset (Option Nat)) :=
      mem_map_of_mem member
    rw [← once] at there
    exact (mem_map_of_injective (Option.some_injective _)).mp there

theorem blkMqRqFromPdu_toPdu (rq : UInt64) : blkMqRqFromPdu (blkMqRqToPdu rq) = rq :=
  UInt64.add_sub_cancel _ _

/-- A head that is published is not posted, when it is the only one in flight. -/
theorem posted_eq_nil {world : VqWorld} {head : Nat} (single : world.inFlight = {head})
    (published : world.vq.vring.published world.device.lastAvailIdx ≠ [] ∨ world.device.held ≠ []) :
    world.vq.vring.posted world.vq.lastUsedIdx = [] := by
  have counted := congrArg Multiset.card single
  rw [card_inFlight, Multiset.card_singleton] at counted
  refine length_eq_zero_iff.mp ?_
  rcases published with some | some <;> have := length_pos_iff.mpr some <;> omega

theorem posted_of_inFlight {world : VqWorld} (none : world.inFlight = 0) :
    world.vq.lastUsedIdx = world.vq.vring.usedIdx := by
  have count := congrArg Multiset.card none
  rw [card_inFlight] at count
  exact posted_eq_nil_iff.mp (length_eq_zero_iff.mp (Nat.eq_zero_of_add_eq_zero count).2)

/-- The softirq ends the bio of the only request in its list. -/
theorem blkDoneSoftirq_single (linked : world.lists.Single .blkCpuDone (.ipiList rq))
    (fifo : ∀ write, world.lists.Empty (.fifoList write))
    (attached : (world.requests rq).bio = some bio)
    (fresh : (world.bios bio).Fresh)
    (dataLen : (world.requests rq).dataLen = (world.bios bio).biIter.biSize) :
    ∃ bios requests lists, ListsIdle lists ∧ blkDoneSoftirq world = .ok { world with
      bios
      requests
      lists
      ended := world.ended ++ [(bio, virtblkResult (world.requests rq).pdu.status)] } := by
  have moved : (world.lists.replaceInit .blkCpuDone .localList).Single .localList (.ipiList rq) :=
    linked.replaceInit_single nofun nofun nofun
  have keeps : world.lists.Keeps (world.lists.replaceInit .blkCpuDone .localList) _ :=
    linked.replaceInit_keeps nofun
  have idle : ListsIdle (world.lists.replaceInit .blkCpuDone .localList) :=
    ⟨fun write => (fifo write).keeps keeps (by simp), ListHeads.init_empty⟩
  have emptied := moved.delInit_empty nofun
  have left : ListsIdle ((world.lists.replaceInit .blkCpuDone .localList).delInit (.ipiList rq)) :=
    idle.keeps moved.delInit_keeps (by simp) (by simp)
  obtain ⟨bios, requests, ran⟩ : ∃ bios requests, virtblkRequestDone { world with
      lists :=
      (world.lists.replaceInit .blkCpuDone .localList).delInit (.ipiList rq) } rq = .ok _ :=
    virtblkRequestDone_eq attached fresh dataLen
  refine ⟨bios, requests, _, left, ?_⟩
  rw [blkDoneSoftirq, maxTurns_eq, blkDoneLoop]
  rw [moved.first]
  dsimp only
  rw [ran, ok_bind, blkDoneLoop]
  rw [emptied.next]

/-- An interrupt that finds nothing does nothing. -/
theorem blkInterrupt_none (calm : world.softirqPending = false)
    (none : world.vq.vq.lastUsedIdx = world.vq.vq.vring.usedIdx) :
    blkInterrupt queue world = .ok world := by
  rw [blkInterrupt, if_pos (.inl none)]
  show (if world.softirqPending then _ else _) = _
  rw [calm]
  rfl

namespace BlkWorld.Good

variable (good : world.Good queue shift)

section Submit

variable (may : maySubmit queue world bio desc = true) (pa : UInt64)

include good may

/-- Without a free descriptor the kernel stops. -/
theorem submit_bug (none : world.vq.vq.numFree = 0) :
    blkMqSubmitBio queue desc pa world bio = .error .bug := by
  obtain ⟨-, fresh, fits, _, _⟩ := of_decide_eq_true may
  obtain ⟨_, _, ran⟩ := blkMqSubmitBio_eq fresh fits good.lists desc pa
  rw [ran, addBio, virtqueueAddSgs, virtqueueAddSplit, if_pos (fun free => free.2.2 none)]
  rfl

variable (small : shift ≤ 15)

include small

/-- With a free descriptor the request of the bio is given to the device. -/
theorem submits (free : world.vq.vq.numFree ≠ 0) :
    ∃ later vq, ListsIdle later ∧ blkMqSubmitBio queue desc pa world bio =
        .ok (dispatched world (queue.staticRqs 1) bio later vq) ∧
      (dispatched world (queue.staticRqs 1) bio later vq).vq.Sound shift ∧
      (dispatched world (queue.staticRqs 1) bio later vq).vq.inFlight =
        world.vq.inFlight + {world.vq.vq.freeHead.toNat} ∧
      vq.token world.vq.vq.freeHead.toNat = blkMqRqToPdu (queue.staticRqs 1) ∧
      vq.vring.published world.vq.device.lastAvailIdx ≠ [] := by
  obtain ⟨-, fresh, fits, memory, _⟩ := of_decide_eq_true may
  obtain ⟨later, idle, ran⟩ := blkMqSubmitBio_eq fresh fits good.lists desc pa
  have mayAdd : mayAdd world.vq.vq (bioSgs queue world (queue.staticRqs 1) bio).1
      (bioSgs queue world (queue.staticRqs 1) bio).2
        (blkMqRqToPdu (queue.staticRqs 1)) desc = true := by
    refine decide_eq_true ⟨?_, queue.pdu_ne 1, free, memory, ?_⟩
    · rw [length_bioSgs]
      exact Nat.le_add_left _ _
    · rwa [length_bioSgs]
  obtain ⟨vq, added, sound, published, flight, token⟩ := good.sound.add small mayAdd pa
  rw [addBio, added] at ran
  refine ⟨later, vq, idle, ran, sound, flight, token, ?_⟩
  rw [published]
  exact append_ne_nil_of_right_ne_nil _ (cons_ne_nil _ _)

/-- A bio that is submitted alone is in flight. -/
theorem submit (none : world.vq.inFlight = 0) :
    ∃ next, blkStep queue world (.submitBio bio desc pa) = .ok next ∧ next.Good queue shift := by
  have counted := good.sound.count
  have nothing := congrArg Multiset.card none
  rw [card_inFlight, Multiset.card_zero] at nothing
  have free : world.vq.vq.numFree ≠ 0 := by
    intro zero
    rw [zero, UInt32.toNat_zero] at counted
    have := Nat.two_pow_pos shift
    omega
  obtain ⟨later, vq, idle, ran, sound, flight, token, published⟩ := good.submits may pa small free
  set next := dispatched world (queue.staticRqs 1) bio later vq
  obtain ⟨new, fresh, -⟩ := of_decide_eq_true may
  rw [none, zero_add] at flight
  have once := good.correct.once
  rw [none, Multiset.map_zero, add_zero] at once
  have inFlight : next.flights world.vq.vq.freeHead.toNat = ⟨some bio, queue.staticRqs 1⟩ :=
    update_self ..
  have request : next.requests (queue.staticRqs 1) = _ := update_self ..
  refine ⟨{ next with submitted := world.submitted ++ [bio] }, ?_, sound, idle, good.calm,
    ⟨?_, ?_, ?_, good.correct.status⟩,
    .inr ⟨world.vq.vq.freeHead.toNat, bio, flight, inFlight, token, ?_, fresh, ?_, ?_, ?_⟩⟩
  · rw [blkStep, if_pos may, ran]
  · rw [flight]
    exact nodup_singleton _
  · show ↑((world.ended.map Prod.fst).map some) + next.vq.inFlight.map (fun head =>
      (next.flights head).bio) = (↑((world.submitted ++ [bio]).map some) : Multiset (Option Nat))
    rw [flight, Multiset.map_singleton, inFlight, once, map_append]
    rfl
  · exact nodup_append_comm.mp (nodup_cons.mpr ⟨new, good.correct.unique⟩)
  · exact congrArg Request.bio request
  · exact congrArg Request.dataLen request
  · exact (congrArg (fun one => one.cmdFlags &&& reqHipri) request).trans fresh.hipri
  · exact fun some => absurd (posted_eq_nil flight (.inl published)) some

/-- A bio that is submitted while another one is in flight takes its request, or stops the
kernel. -/
theorem not_serves_submit {other : Nat} (flying : world.Flying (queue.staticRqs 1) head other) :
    ¬Serves world (.submitBio bio desc pa) (blkStep queue world (.submitBio bio desc pa)) := by
  rw [blkStep, if_pos may]
  by_cases free : world.vq.vq.numFree = 0
  · rw [good.submit_bug may pa free]
    rintro (misuse | ⟨next, ran, -⟩)
    · cases misuse
    · cases ran
  · obtain ⟨later, vq, -, ran, -, flight, -, -⟩ := good.submits may pa small free
    rw [ran]
    rintro (misuse | ⟨next, ⟨rfl⟩, correct, -⟩)
    · cases misuse
    · have distinct := correct.distinct
      have same : ∀ one, one = head ∨ one = world.vq.vq.freeHead.toNat →
          ((dispatched world (queue.staticRqs 1) bio later vq).flights one).rq =
            queue.staticRqs 1 := by
        intro one which
        unfold dispatched
        dsimp only
        by_cases new : one = world.vq.vq.freeHead.toNat
        · rw [new, update_self]
        · rw [update_of_ne new, which.resolve_right new, flying.flight]
      rw [flight, flying.inFlight, Multiset.map_add, Multiset.map_singleton, Multiset.map_singleton,
        same head (.inl rfl), same _ (.inr rfl)] at distinct
      exact Multiset.disjoint_left.mp (Multiset.nodup_add.mp distinct).2.2
        (mem_singleton_self _) (mem_singleton_self _)

end Submit

variable (small : shift ≤ 15)

include good small

/-- The device takes a published head. -/
theorem consume :
    blkStep queue world .consume = .error .misuse ∨
      ∃ next, blkStep queue world .consume = .ok next ∧ next.Good queue shift := by
  rw [blkStep]
  rcases good.sound.device small (.inl rfl) with misuse | ⟨vq, ran, sound, inFlight, -, -⟩
  · rw [misuse]
    exact .inl rfl
  · rw [ran]
    have driver : vq.vq = world.vq.vq := by
      rw [vqStep] at ran
      split_ifs at ran
      exact (congrArg VqWorld.vq (Except.ok.inj ran)).symm
    refine .inr
      ⟨_, rfl, sound, good.lists, good.calm, ⟨?_, ?_, good.correct.unique, good.correct.status⟩, ?_⟩
    · exact inFlight ▸ good.correct.distinct
    · exact inFlight ▸ good.correct.once
    · refine good.flying.imp (inFlight.trans) ?_
      rintro ⟨head, bio, flying⟩
      exact ⟨head, bio, inFlight.trans flying.inFlight, flying.flight, driver ▸ flying.token,
        flying.attached, flying.fresh, flying.dataLen, flying.hipri, driver ▸ flying.reported⟩

/-- The device completes the head that is in flight, and writes the status of its request. -/
theorem complete (index len : UInt32) (status : UInt8) :
    blkStep queue world (.complete index len status) = .error .misuse ∨
      ∃ next, blkStep queue world (.complete index len status) = .ok next ∧
        next.Good queue shift := by
  rw [blkStep]
  rcases good.sound.device small (.inr ⟨index, len, rfl⟩) with misuse | ⟨vq, ran, sound,
    inFlight, driver, -⟩
  · rw [misuse]
    exact .inl rfl
  · rw [ran]
    have member := mem_inFlight_of_post ran
    rcases good.flying with none | ⟨head, bio, flying⟩
    · rw [none] at member
      exact absurd member (Multiset.notMem_zero _)
    rw [flying.inFlight, Multiset.mem_singleton] at member
    have token : (world.vq.vq.descState index.toNat).data = blkMqRqToPdu (queue.staticRqs 1) :=
      member ▸ flying.token
    right
    rw [token, blkMqRqFromPdu_toPdu, member, flying.flight]
    have request :
        update world.requests (queue.staticRqs 1) { world.requests (queue.staticRqs 1) with
        pdu := { (world.requests (queue.staticRqs 1)).pdu with status } } _ = _ := update_self ..
    refine ⟨_, rfl, sound, good.lists, good.calm, ⟨?_, ?_, good.correct.unique, ?_⟩,
      .inr ⟨head, bio, inFlight.trans flying.inFlight, flying.flight, ?_, ?_, flying.fresh,
        ?_, ?_, ?_⟩⟩
    · exact inFlight ▸ good.correct.distinct
    · exact inFlight ▸ good.correct.once
    · intro one ended
      dsimp only
      rw [update_of_ne]
      · exact good.correct.status one ended
      · rintro rfl
        exact good.correct.not_ended flying (mem_map_of_mem ended)
    · rw [driver]
      exact flying.token
    · exact (congrArg Request.bio request).trans flying.attached
    · exact (congrArg Request.dataLen request).trans flying.dataLen
    · exact (congrArg (fun one => one.cmdFlags &&& reqHipri) request).trans flying.hipri
    · intro _
      dsimp only
      rw [update_self, update_self]

section Interrupt

variable (flying : world.Flying rq head bio)
    (more : world.vq.vq.lastUsedIdx ≠ world.vq.vq.vring.usedIdx)

include flying more

/-- The driver collects the only head in flight. -/
theorem getBuf :
    ∃ len vq, virtqueueGetBuf world.vq.vq = .ok (blkMqRqToPdu rq, len, vq) ∧ blkMqRqToPdu rq ≠ 0 ∧
      (world.vq.returning vq (blkMqRqToPdu rq)).Sound shift ∧
      (world.vq.returning vq (blkMqRqToPdu rq)).inFlight = 0 ∧
      virtqueueGetBuf vq = .ok (0, 0, vq) ∧ vq.lastUsedIdx = vq.vring.usedIdx := by
  obtain ⟨one, len, vq, ran, token, -, flight, kept⟩ := good.sound.getBuf small more
  rw [flying.inFlight] at flight
  have same : one = head := by
    have member : one ∈ ({head} : Multiset Nat) :=
      flight ▸ Multiset.mem_add.mpr (.inl (mem_singleton_self _))
    exact mem_singleton.mp member
  subst same
  rw [flying.token] at ran token flight kept
  have rest := add_eq_left.mp flight.symm
  have empty : vq.lastUsedIdx = vq.vring.usedIdx := posted_of_inFlight rest
  have again : virtqueueGetBuf vq = .ok (0, 0, vq) := by
    rw [virtqueueGetBuf, show vq.broken = false from kept.works.1, if_neg Bool.false_ne_true,
      if_pos empty]
  exact ⟨len, vq, ran, token, kept, rest, again, empty⟩

omit small flying in
theorem busy :
    ¬(world.vq.vq.lastUsedIdx = world.vq.vq.vring.usedIdx ∨ world.vq.vq.broken = true) := by
  rw [good.sound.works.1, or_iff_left Bool.false_ne_true]
  exact more

/-- `virtblk_done` puts the request of the head in flight into the list of the softirq. -/
theorem virtblkDone (single : queue.nrHwQueues ≤ 1) :
    ∃ vq lists, Xlinux.virtblkDone queue maxTurns world = .ok { world with
        vq := world.vq.returning vq (blkMqRqToPdu rq)
        lists
        softirqPending := true } ∧
      (world.vq.returning vq (blkMqRqToPdu rq)).Sound shift ∧
      (world.vq.returning vq (blkMqRqToPdu rq)).inFlight = 0 ∧
      vq.lastUsedIdx = vq.vring.usedIdx ∧
      lists.Single .blkCpuDone (.ipiList rq) ∧ ∀ write, lists.Empty (.fifoList write) := by
  obtain ⟨_, vq, ran, token, kept, none, again, empty⟩ := good.getBuf small flying more
  have linked : (world.lists.addBetween (.ipiList rq) .blkCpuDone .blkCpuDone).Single .blkCpuDone
      (.ipiList rq) := addBetween_single nofun
  have here : ¬((world.requests rq).cmdFlags &&& reqHipri ≠ 0 ∨ queue.nrHwQueues > 1) := by
    rintro (polled | several)
    · exact polled flying.hipri
    · exact UInt32.not_le.mpr several single
  have looped : virtblkDoneLoop queue maxTurns world = .ok { world with
      vq := world.vq.returning vq (blkMqRqToPdu rq)
      lists := world.lists.addBetween (.ipiList rq) .blkCpuDone .blkCpuDone
      softirqPending := true } := by
    rw [maxTurns_eq, virtblkDoneLoop, ran, ok_bind]
    dsimp only
    rw [if_neg token, blkMqRqFromPdu_toPdu, blkMqCompleteRequest]
    rw [if_neg here, ok_bind, virtblkDoneLoop]
    rw [again, ok_bind, good.lists.done.addTail_eq, linked.first, decide_eq_true rfl, Bool.or_true]
    rfl
  refine ⟨vq, _, ?_, kept, none, empty, linked, fun write =>
    (good.lists.fifo write).keeps addBetween_keeps (by simp)⟩
  rw [maxTurns_eq, Xlinux.virtblkDone, looped, ok_bind]
  rw [if_pos (.inr empty)]
  rfl

/-- With several hardware queues the driver stops at its first completion. -/
theorem blkInterrupt_bug (several : queue.nrHwQueues > 1) :
    blkInterrupt queue world = .error .bug := by
  obtain ⟨_, _, ran, token, -⟩ := good.getBuf small flying more
  rw [blkInterrupt, if_neg (good.busy more), maxTurns_eq, Xlinux.virtblkDone,
    maxTurns_eq, virtblkDoneLoop, ran, ok_bind]
  dsimp only
  rw [if_neg token, blkMqCompleteRequest, if_pos (.inr several)]
  rfl

end Interrupt

/-- An interrupt ends the bio that was completed, with the status of its request. -/
theorem interrupt (flying : world.Flying (queue.staticRqs 1) head bio)
    (more : world.vq.vq.lastUsedIdx ≠ world.vq.vq.vring.usedIdx) (single : queue.nrHwQueues ≤ 1) :
    ∃ next, blkInterrupt queue world = .ok next ∧ next.Good queue shift ∧
      next.vq.vq.lastUsedIdx = next.vq.vq.vring.usedIdx := by
  obtain ⟨vq, linked, ran, kept, none, empty, inList, fifo⟩ :=
    good.virtblkDone small flying more single
  obtain ⟨bios, requests, lists, idle, ended⟩ : ∃ bios requests lists, ListsIdle lists ∧
      blkDoneSoftirq { world with
        vq := world.vq.returning vq (blkMqRqToPdu (queue.staticRqs 1))
        lists := linked
        softirqPending := false } = .ok _ :=
    blkDoneSoftirq_single inList fifo flying.attached flying.fresh flying.dataLen
  rw [blkInterrupt, if_neg (good.busy more), ran, ok_bind]
  dsimp only
  rw [ended]
  have reported := flying.reported (mt posted_eq_nil_iff.mp more)
  have once := good.correct.once
  rw [flying.inFlight, Multiset.map_singleton, flying.flight] at once
  refine ⟨_, rfl, ⟨kept, idle, rfl, ⟨?_, ?_, good.correct.unique, ?_⟩, .inl none⟩, empty⟩
  · rw [none]
    exact Multiset.nodup_zero
  · rw [none, Multiset.map_zero, add_zero, ← once, map_append, map_append]
    rfl
  · intro one member
    rcases mem_append.mp member with before | now
    · exact good.correct.status one before
    · rw [mem_singleton.mp now]
      exact ⟨_, reported, rfl⟩

end BlkWorld.Good

end Steps

/-! ### Runs -/

section Runs

variable {queue : BlkQueue} {shift : Nat} {world : BlkWorld}

theorem good_newBlkWorld (small : shift ≤ 15) (power : queue.num.toNat = 2 ^ shift)
    (bios : Nat → Bio) : (newBlkWorld queue bios).Good queue shift := by
  have none : (newBlkWorld queue bios).vq.inFlight = 0 := inFlight_newVqWorld queue.num
  refine ⟨sound_newVqWorld power small, ⟨fun _ => ⟨rfl, rfl⟩, ⟨rfl, rfl⟩⟩, rfl,
    ⟨?_, ?_, ?_, nofun⟩, .inl none⟩
  · rw [none]
    exact Multiset.nodup_zero
  · rw [none]
    rfl
  · exact nodup_nil

/-- A step serves the bios exactly when one bio at a time is submitted, and then the queue stays
good. -/
theorem BlkWorld.Good.serves_iff (good : world.Good queue shift) (small : shift ≤ 15)
    (step : BlkStep) : (Serves world step (blkStep queue world step) ↔
      OneAtATime queue world step (blkStep queue world step)) ∧
      ∀ next, Serves world step (blkStep queue world step) → blkStep queue world step = .ok next →
        next.Good queue shift := by
  have served : ∀ {result : Except Halt BlkWorld}, (result = .error .misuse ∨
      ∃ next, result = .ok next ∧ next.Good queue shift) →
      (∀ next, result = .ok next → step = .interrupt →
        next.vq.vq.lastUsedIdx = next.vq.vq.vring.usedIdx) → OneAtATime queue world step result →
      (Serves world step result ↔ OneAtATime queue world step result) ∧
        ∀ next, Serves world step result → result = .ok next → next.Good queue shift := by
    rintro result (misuse | ⟨next, ran, kept⟩) empty one
    · exact ⟨iff_of_true (.inl misuse) one, fun next _ ran => nomatch misuse.symm.trans ran⟩
    · refine ⟨iff_of_true (.inr ⟨next, ran, kept.correct, fun same => ?_⟩) one,
        fun after _ same => ?_⟩
      · exact posted_eq_nil_iff.mpr (empty next ran same)
      · exact Except.ok.inj (ran.symm.trans same) ▸ kept
  cases step with
  | consume => exact served (good.consume small) (fun _ _ => nofun) (.inr trivial)
  | complete head len status =>
    exact served (good.complete small head len status) (fun _ _ => nofun) (.inr trivial)
  | submitBio bio desc pa =>
    by_cases may : maySubmit queue world bio desc = true
    case neg =>
      have misuse : blkStep queue world (.submitBio bio desc pa) = .error .misuse := by
        rw [blkStep, if_neg may]
      exact served (.inl misuse) (fun _ _ => nofun) (.inl misuse)
    rcases good.flying with none | ⟨head, other, flying⟩
    · exact served (.inr (good.submit may pa small none)) (fun _ _ => nofun)
        (.inr (good.inFlight_eq_zero_iff.mpr none))
    · have fails := good.not_serves_submit may pa small flying
      refine ⟨⟨fails.elim, ?_⟩, fun _ serves => absurd serves fails⟩
      rintro (misuse | all)
      · exact .inl misuse
      · have none := good.inFlight_eq_zero_iff.mp all
        rw [flying.inFlight] at none
        exact absurd none (Multiset.singleton_ne_zero _)
  | interrupt =>
    rw [blkStep]
    by_cases none : world.vq.vq.lastUsedIdx = world.vq.vq.vring.usedIdx
    · rw [blkInterrupt_none good.calm none]
      refine served (.inr ⟨world, rfl, good⟩) ?_ (.inr (.inr none))
      rintro _ ⟨rfl⟩ _
      exact none
    obtain ⟨head, bio, flying⟩ := good.flying.resolve_left (mt posted_of_inFlight none)
    by_cases single : queue.nrHwQueues ≤ 1
    · obtain ⟨next, ran, kept, empty⟩ := good.interrupt small flying none single
      rw [ran]
      refine served (.inr ⟨next, rfl, kept⟩) ?_ (.inr (.inl single))
      rintro _ ⟨rfl⟩ _
      exact empty
    · rw [good.blkInterrupt_bug small flying none (UInt32.not_le.mp single)]
      refine ⟨⟨?_, ?_⟩, ?_⟩
      · rintro (misuse | ⟨next, ran, -⟩)
        · cases misuse
        · cases ran
      · rintro (misuse | one | nothing)
        · cases misuse
        · exact absurd one single
        · exact absurd nothing none
      · intro next _ ran
        cases ran

end Runs

/-- In every run from a new queue every step serves the bios if and only if every bio is submitted
after the bios before it were ended and completions are only found by a driver with a single
hardware queue. -/
theorem blkStep_serves_iff (queue : BlkQueue) (bios : Nat → Bio) (steps : List BlkStep) :
    Run.Through (blkStep queue) Serves (newBlkWorld queue bios) steps ↔
      Run.Through (blkStep queue) (OneAtATime queue) (newBlkWorld queue bios) steps := by
  obtain ⟨_, small, power⟩ := queue.num_eq
  exact Run.through_iff (fun world step good => (BlkWorld.Good.serves_iff good small step).1)
    (fun world step next good serves ran =>
      (BlkWorld.Good.serves_iff good small step).2 next serves ran)
    (good_newBlkWorld small power bios) steps

/-- A queue with sixteen descriptors. -/
def smallQueue : BlkQueue where
  num := 16
  nrHwQueues := 1
  staticRqs tag := 0x10000 + tag.toUInt64 * 512
  sgElems := 130
  vaPaOffset := 0
  uninitialized := 0
  num_eq := ⟨4, by decide, rfl⟩
  pdu_ne tag := by
    intro zero
    have value := congrArg UInt64.toNat zero
    have small := tag.toNat_lt
    rw [UInt64.toNat_add, UInt64.toNat_add, UInt64.toNat_mul, UInt32.toNat_toUInt64] at value
    simp only [sizeofRequest, UInt64.toNat_ofNat] at value
    omega

/-- Reads of one page each. -/
def pageReads (bio : Nat) : Bio where
  biNext := none
  biOpf := 0
  biIoprio := 0
  biStatus := 0
  biIter := ⟨8 * UInt64.ofNat bio, 4096, 0, 0⟩
  biIoVec := [⟨0x200000 + 4096 * UInt64.ofNat bio, 4096, 0⟩]

/-- Two reads, of which the first one fails, and an interrupt for each of them. -/
def twoReads : List BlkStep :=
  [.submitBio 0 0x8000 0x8000, .submitBio 1 0x8100 0x8100, .consume, .complete 0 1 1, .interrupt,
    .consume, .complete 1 4097 0, .interrupt]

/-- Both reads use the same request: the error of the first one ends the second one, and the first
one is never ended. -/
theorem blkStep_run_twoReads :
    ∃ world, Run.run (blkStep smallQueue) (newBlkWorld smallQueue pageReads) twoReads = .ok world ∧
      world.submitted = [0, 1] ∧ world.ended = [(1, 10)] ∧ world.reported 1 = some 0 ∧
      world.vq.inFlight = 0 ∧ ¬world.Correct := by
  have outcome : (Run.run (blkStep smallQueue) (newBlkWorld smallQueue pageReads) twoReads).map
      (fun world => (world.submitted, world.ended, world.reported 1, world.vq.inFlight)) =
        .ok ([0, 1], [(1, 10)], some 0, 0) := by
    decide +kernel
  obtain ⟨world, ran, seen⟩ := exists_ok_of_map outcome
  simp only [Prod.mk.injEq] at seen
  obtain ⟨submitted, ended, reported, inFlight⟩ := seen
  refine ⟨world, ran, submitted, ended, reported, inFlight, fun correct => ?_⟩
  obtain ⟨status, same, result⟩ := correct.status (1, 10) (ended ▸ mem_singleton_self _)
  rw [reported, Option.some.injEq] at same
  rw [← same] at result
  exact absurd result (by decide)

end Xlinux
