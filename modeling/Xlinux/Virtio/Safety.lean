/-
This file proves that the driver and an honest device share a virtqueue safely.
The free chain, the published heads, the heads the device holds and the posted
ones partition the descriptors at every moment, and so do the tokens that were
returned and those of the heads in flight: a step moves one head from one part to
the next. Since there are never more heads in flight than cells in a ring, a
16-bit index may wrap around any number of times.
-/

import Xlinux.Lib.Run
import Xlinux.Virtio.Ring

namespace Xlinux

open Ring Chain List Nat UInt32
open Function

/-! ### The parts -/

/-- The free descriptors, in the order of their chain. -/
def Virtqueue.freeChain (vq : Virtqueue) : List Nat :=
  chain (fun i => (vq.vring.desc i).next.toNat) vq.freeHead.toNat vq.numFree.toNat

/-- The heads in the available ring that a device has not consumed. -/
def Vring.published (vring : Vring) (lastAvailIdx : UInt16) : List Nat :=
  (contents vring.availRing vring.num.toNat lastAvailIdx.toNat
    (vring.availIdx - lastAvailIdx).toNat).map UInt16.toNat

/-- The heads in the used ring that the driver has not collected. -/
def Vring.posted (vring : Vring) (lastUsedIdx : UInt16) : List Nat :=
  (contents vring.usedRing vring.num.toNat lastUsedIdx.toNat
    (vring.usedIdx - lastUsedIdx).toNat).map fun elem => elem.id.toNat

/-- The heads in flight. -/
def VqWorld.inFlight (world : VqWorld) : Multiset Nat :=
  ↑(world.vq.vring.published world.device.lastAvailIdx) + ↑(world.device.held.map UInt32.toNat) +
    ↑(world.vq.vring.posted world.vq.lastUsedIdx)

/-- The token of a head. -/
def Virtqueue.token (vq : Virtqueue) (head : Nat) : UInt64 := (vq.descState head).data

/-- The free chain and the heads in flight partition the descriptors. -/
def VqWorld.Partitioned (world : VqWorld) : Prop :=
  ↑world.vq.freeChain + world.inFlight = Multiset.range world.vq.vring.num.toNat

/-- The tokens that were added are those that were returned and those in flight. -/
def VqWorld.Accounted (world : VqWorld) : Prop :=
  ↑world.returned + world.inFlight.map world.vq.token = (↑world.added : Multiset UInt64)

/-- A descriptor that was taken for an indirect table. -/
structure Virtqueue.Taken (vq : Virtqueue) (head : Nat) : Prop where
  token : vq.token head ≠ 0
  table : (vq.descState head).indirDesc ≠ 0
  flags : (vq.vring.desc head).flags = vringDescFIndirect
  len : (vq.vring.desc head).len ≠ 0 ∧ (vq.vring.desc head).len % sizeofVringDesc = 0

/-- Only the descriptor and its state count. -/
theorem Virtqueue.Taken.congr {vq next : Virtqueue} {head : Nat} (taken : vq.Taken head)
    (state : next.descState head = vq.descState head)
    (desc : next.vring.desc head = vq.vring.desc head) : next.Taken head := by
  obtain ⟨token, table, flags, len⟩ := taken
  rw [Virtqueue.token, ← state] at token
  rw [← state] at table
  rw [← desc] at flags len
  exact ⟨token, table, flags, len⟩

/-- What every step keeps. -/
structure VqWorld.Sound (shift : Nat) (world : VqWorld) : Prop where
  num : world.vq.vring.num.toNat = 2 ^ shift
  works : world.vq.broken = false ∧ world.vq.indirect = true ∧ world.vq.useDmaApi = false
  shadow : world.vq.availIdxShadow = world.vq.vring.availIdx
  partitioned : world.Partitioned
  accounted : world.Accounted
  taken : ∀ head ∈ world.inFlight, world.vq.Taken head

/-! ### Indices -/

section Indices

variable {num : UInt32} {shift : Nat}

theorem ringCell_eq (power : num.toNat = 2 ^ shift) (idx : UInt16) :
    ringCell num idx = idx.toNat % 2 ^ shift := by
  have positive : 1 ≤ num.toNat := power ▸ Nat.one_le_two_pow
  have mask : (num - 1).toNat = 2 ^ shift - 1 := by
    rw [UInt32.toNat_sub_of_le _ _
      (le_iff_toNat_le.mpr (show (1 : UInt32).toNat ≤ _ from positive)), power]
    rfl
  rw [ringCell, UInt32.toNat_and, mask, and_two_pow_sub_one_eq_mod, UInt16.toNat_toUInt32]

/-- A later index is an earlier one and the distance between them, in every ring. -/
theorem mod_idx (small : shift ≤ 15) (first last : UInt16) :
    last.toNat % 2 ^ shift = (first.toNat + (last - first).toNat) % 2 ^ shift := by
  have divides : 2 ^ shift ∣ 2 ^ 16 := pow_dvd_pow 2 (by omega)
  have same : last.toNat % 2 ^ 16 = (first.toNat + (last - first).toNat) % 2 ^ 16 := by
    have low := first.toNat_lt
    rw [UInt16.toNat_sub]
    omega
  rw [← mod_mod_of_dvd last.toNat divides, same, mod_mod_of_dvd _ divides]

theorem toNat_add_one_sub {first last : UInt16} (room : (last - first).toNat + 1 < 2 ^ 16) :
    (last + 1 - first).toNat = (last - first).toNat + 1 := by
  rw [UInt16.toNat_sub] at room
  rw [UInt16.toNat_sub, UInt16.toNat_add, UInt16.toNat_sub, UInt16.toNat_one]
  omega

theorem toNat_sub_add_one {first last : UInt16} (differ : first ≠ last) :
    (last - first).toNat = (last - (first + 1)).toNat + 1 := by
  have low := first.toNat_lt
  have high := last.toNat_lt
  have apart : first.toNat ≠ last.toNat := fun same => differ (UInt16.toNat_inj.mp same)
  rw [UInt16.toNat_sub, UInt16.toNat_sub, UInt16.toNat_add, UInt16.toNat_one]
  omega

theorem mod_succ_idx (small : shift ≤ 15) (idx : UInt16) :
    (idx + 1).toNat % 2 ^ shift = (idx.toNat + 1) % 2 ^ shift := by
  have divides : 2 ^ shift ∣ 2 ^ 16 := pow_dvd_pow 2 (by omega)
  rw [UInt16.toNat_add, mod_mod_of_dvd _ divides]
  rfl

end Indices

/-! ### The rings -/

section Rings

variable {vring : Vring} {shift : Nat}
variable {last : UInt16}

/-- The oldest published head. -/
theorem published_cons (power : vring.num.toNat = 2 ^ shift) (small : shift ≤ 15)
    (more : last ≠ vring.availIdx) :
    vring.published last =
      (vring.availRing (ringCell vring.num last)).toNat :: vring.published (last + 1) := by
  rw [Vring.published, toNat_sub_add_one more, contents, map_cons, ringCell_eq power, power,
    contents_congr_mod (mod_succ_idx small last).symm, Vring.published, power]

/-- The oldest posted head. -/
theorem posted_cons (power : vring.num.toNat = 2 ^ shift) (small : shift ≤ 15)
    (more : last ≠ vring.usedIdx) :
    vring.posted last =
      (vring.usedRing (ringCell vring.num last)).id.toNat :: vring.posted (last + 1) := by
  rw [Vring.posted, toNat_sub_add_one more, contents, map_cons, ringCell_eq power, power,
    contents_congr_mod (mod_succ_idx small last).symm, Vring.posted, power]

theorem length_published (vring : Vring) (last : UInt16) :
    (vring.published last).length = (vring.availIdx - last).toNat := by
  rw [Vring.published, length_map, length_contents]

theorem length_posted (vring : Vring) (last : UInt16) :
    (vring.posted last).length = (vring.usedIdx - last).toNat := by
  rw [Vring.posted, length_map, length_contents]

theorem posted_eq_nil_iff {vring : Vring} : vring.posted last = [] ↔ last = vring.usedIdx := by
  rw [← length_eq_zero_iff, length_posted]
  constructor
  · intro none
    have zero : vring.usedIdx - last = 0 := UInt16.toNat_inj.mp none
    rw [UInt16.sub_eq_iff_eq_add, UInt16.zero_add] at zero
    exact zero.symm
  · rintro rfl
    rw [UInt16.sub_self]
    rfl

/-- A new head is published behind the others, which stay as they are. -/
theorem published_push (power : vring.num.toNat = 2 ^ shift) (small : shift ≤ 15)
    (room : (vring.published last).length < 2 ^ shift) (head : UInt16) :
    ({ vring with
      availRing := update vring.availRing (ringCell vring.num vring.availIdx) head
      availIdx := vring.availIdx + 1 } : Vring).published last =
      vring.published last ++ [head.toNat] := by
  rw [length_published] at room
  have big : 2 ^ shift ≤ 2 ^ 15 := Nat.pow_le_pow_right (by decide) small
  rw [Vring.published]
  rw [toNat_add_one_sub (by omega), ringCell_eq power, mod_idx small last, power,
    contents_push room, map_append, Vring.published, power]
  rfl

theorem posted_push (power : vring.num.toNat = 2 ^ shift) (small : shift ≤ 15)
    (room : (vring.posted last).length < 2 ^ shift) (head len : UInt32) :
    (devicePost vring head len).posted last = vring.posted last ++ [head.toNat] := by
  rw [length_posted] at room
  have big : 2 ^ shift ≤ 2 ^ 15 := Nat.pow_le_pow_right (by decide) small
  rw [Vring.posted, devicePost]
  rw [toNat_add_one_sub (by omega), ringCell_eq power, mod_idx small last, power,
    contents_push room, map_append, Vring.posted, power]
  rfl

end Rings

/-! ### The parts of a sound queue -/

section Steps

variable {shift : Nat} {world : VqWorld}

theorem card_inFlight (world : VqWorld) : world.inFlight.card =
    (world.vq.vring.published world.device.lastAvailIdx).length + world.device.held.length +
      (world.vq.vring.posted world.vq.lastUsedIdx).length := by
  rw [VqWorld.inFlight, Multiset.card_add, Multiset.card_add, Multiset.coe_card, Multiset.coe_card,
    Multiset.coe_card, length_map]

namespace VqWorld.Sound

variable (sound : world.Sound shift)

include sound

theorem count :
    world.vq.numFree.toNat + ((world.vq.vring.published world.device.lastAvailIdx).length +
      world.device.held.length + (world.vq.vring.posted world.vq.lastUsedIdx).length) =
        2 ^ shift := by
  have counted := congrArg Multiset.card sound.partitioned
  rwa [Multiset.card_add, Multiset.coe_card, Virtqueue.freeChain, length_chain, card_inFlight,
    Multiset.card_range, sound.num] at counted

theorem nodup : (↑world.vq.freeChain + world.inFlight : Multiset Nat).Nodup := by
  rw [show _ = _ from sound.partitioned]
  exact Multiset.nodup_range _

theorem not_mem_freeChain {head : Nat} (member : head ∈ world.inFlight) :
    head ∉ world.vq.freeChain := fun free =>
  Multiset.disjoint_left.mp (Multiset.nodup_add.mp sound.nodup).2.2 free member

theorem lt_num {head : Nat}
    (member : head ∈ (↑world.vq.freeChain + world.inFlight : Multiset Nat)) : head < 2 ^ shift := by
  rw [show _ = _ from sound.partitioned, Multiset.mem_range, sound.num] at member
  exact member

/-- A step that moves heads in flight only keeps the rest. -/
theorem of_inFlight {vring : Vring} {device : VirtioDevice}
    (sameFlight : ({ world with vq := { world.vq with vring }, device } : VqWorld).inFlight =
      world.inFlight)
    (num : vring.num = world.vq.vring.num) (desc : vring.desc = world.vq.vring.desc)
    (avail : vring.availIdx = world.vq.vring.availIdx) :
    ({ world with vq := { world.vq with vring }, device } : VqWorld).Sound shift where
  num := (congrArg toNat num).trans sound.num
  works := sound.works
  shadow := sound.shadow.trans avail.symm
  partitioned := by
    have free : ({ world.vq with vring } : Virtqueue).freeChain = world.vq.freeChain := by
      rw [Virtqueue.freeChain, Virtqueue.freeChain, desc]
    rw [VqWorld.Partitioned, sameFlight, free, num]
    exact sound.partitioned
  accounted := by
    rw [VqWorld.Accounted, sameFlight]
    exact sound.accounted
  taken head member := by
    rw [sameFlight] at member
    exact (sound.taken head member).congr rfl (congrFun desc head)

/-! ### The device -/

theorem inFlight_consume (small : shift ≤ 15)
    (more : world.device.lastAvailIdx ≠ world.vq.vring.availIdx) :
    ({ world with device := deviceConsume world.vq.vring world.device } : VqWorld).inFlight =
      world.inFlight := by
  rw [VqWorld.inFlight, VqWorld.inFlight, published_cons sound.num small more, deviceConsume]
  simp only [map_append, ← Multiset.coe_add, ← Multiset.cons_coe, map_cons, map_nil,
    UInt16.toNat_toUInt32, Multiset.coe_nil, ← Multiset.singleton_add]
  abel

theorem inFlight_post (small : shift ≤ 15) {head : UInt32} (member : head ∈ world.device.held)
    (len : UInt32) :
    ({ world with
      vq := { world.vq with vring := devicePost world.vq.vring head len }
      device := { world.device with held := world.device.held.erase head } } : VqWorld).inFlight =
      world.inFlight := by
  have counted := sound.count
  have some : 0 < world.device.held.length := length_pos_of_mem member
  have published : (devicePost world.vq.vring head len).published world.device.lastAvailIdx =
      world.vq.vring.published world.device.lastAvailIdx := rfl
  have held : (↑(world.device.held.map toNat) : Multiset Nat) =
      {head.toNat} + ↑((world.device.held.erase head).map toNat) := by
    rw [Multiset.singleton_add, Multiset.cons_coe, Multiset.coe_eq_coe]
    exact (perm_cons_erase member).map _
  rw [VqWorld.inFlight, VqWorld.inFlight]
  dsimp only
  rw [posted_push sound.num small (by omega), published, held, ← Multiset.coe_add]
  abel

end VqWorld.Sound

/-- A head that a device posts is in flight. -/
theorem mem_inFlight_of_post {next : VqWorld} {head len : UInt32}
    (ran : vqStep world (.post head len) = .ok next) : head.toNat ∈ world.inFlight := by
  rw [vqStep] at ran
  split_ifs at ran with member
  rw [VqWorld.inFlight, Multiset.mem_add, Multiset.mem_add]
  exact .inl (.inr (mem_map_of_mem member))

/-- A step of the device keeps the heads in flight and the driver's own state. -/
theorem VqWorld.Sound.device (sound : world.Sound shift) (small : shift ≤ 15) {step : VqStep}
    (device : step = .consume ∨ ∃ head len, step = .post head len) :
    vqStep world step = .error .misuse ∨ ∃ next, vqStep world step = .ok next ∧ next.Sound shift ∧
      next.inFlight = world.inFlight ∧ next.vq = { world.vq with vring := next.vq.vring } ∧
      ∀ last, next.vq.vring.published last = world.vq.vring.published last := by
  rcases device with rfl | ⟨head, len, rfl⟩
  all_goals
    rw [vqStep]
    split_ifs with allowed
  · exact .inl rfl
  · have same := sound.inFlight_consume small allowed
    exact .inr ⟨_, rfl, sound.of_inFlight same rfl rfl rfl, same, rfl, fun _ => rfl⟩
  · have same := sound.inFlight_post small allowed len
    exact .inr ⟨_, rfl, sound.of_inFlight same rfl rfl rfl, same, rfl, fun _ => rfl⟩
  · exact .inl rfl

/-! ### Adding -/

theorem virtqueueKick_eq (vq : Virtqueue) : virtqueueKick vq = vq := by
  rw [virtqueueKick, if_pos (show vmNotify = true from rfl), ite_self]

/-- The queue with its first free descriptor published. -/
def Virtqueue.withHead (vq : Virtqueue) (table : List VringDesc) (data desc pa : UInt64)
    (len : UInt32) : Virtqueue :=
  publish { setHead { vq with tables := update vq.tables desc table } vq.freeHead.toNat pa len
      ⟨data, desc⟩ with
    numFree := vq.numFree - 1
    freeHead := (vq.vring.desc vq.freeHead.toNat).next.toUInt32 } vq.freeHead

theorem virtqueueAddSplit_ok {vq : Virtqueue} (works : vq.indirect = true) {totalSg : UInt32}
    (two : totalSg > 1) (free : vq.numFree ≠ 0) {desc : UInt64} (memory : desc ≠ 0)
    (inside : vq.freeHead < vq.vring.num) (outSgs inSgs : List Scatter) (data pa : UInt64) :
    virtqueueAddSplit vq outSgs inSgs totalSg data desc pa =
      .ok (vq.withHead (indirectTable outSgs inSgs) data desc pa (totalSg * sizeofVringDesc)) := by
  have bound : ¬vq.freeHead ≥ vq.vring.num := UInt32.not_le.mpr inside
  rw [virtqueueAddSplit, if_neg (not_not.mpr ⟨works, two, free⟩), if_neg memory, if_neg bound]
  dsimp only
  rw [virtqueueKick_eq, ite_self, Virtqueue.withHead]
  simp only [setHead, update_self]

/-- A chain of free descriptors that is not empty begins with its head. -/
theorem freeChain_cons {vq : Virtqueue} (free : vq.numFree ≠ 0) :
    vq.freeChain = vq.freeHead.toNat :: chain (fun i => (vq.vring.desc i).next.toNat)
      (vq.vring.desc vq.freeHead.toNat).next.toNat (vq.numFree - 1).toNat := by
  have positive : 1 ≤ vq.numFree.toNat := one_le_iff_ne_zero.mpr fun zero =>
    free (UInt32.toNat_inj.mp zero)
  have fewer : (vq.numFree - 1).toNat = vq.numFree.toNat - 1 :=
    UInt32.toNat_sub_of_le _ _ (le_iff_toNat_le.mpr positive)
  rw [Virtqueue.freeChain, fewer]
  obtain ⟨_, some⟩ := Nat.exists_eq_add_of_le' positive
  rw [some]
  rfl

section WithHead

variable {vq : Virtqueue} {table : List VringDesc} {data desc pa : UInt64} {len : UInt32}

theorem desc_withHead_self : (vq.withHead table data desc pa len).vring.desc vq.freeHead.toNat =
    { vq.vring.desc vq.freeHead.toNat with flags := vringDescFIndirect, addr := pa, len } :=
  update_self ..

theorem freeChain_withHead : (vq.withHead table data desc pa len).freeChain =
    chain (fun i => (vq.vring.desc i).next.toNat) (vq.vring.desc vq.freeHead.toNat).next.toNat
      (vq.numFree - 1).toNat := by
  have links : (fun i => ((vq.withHead table data desc pa len).vring.desc i).next.toNat) =
      fun i => (vq.vring.desc i).next.toNat := by
    funext i
    by_cases here : i = vq.freeHead.toNat
    · rw [here, desc_withHead_self]
    · exact congrArg (fun desc : VringDesc => desc.next.toNat) (update_of_ne here _ _)
  rw [Virtqueue.freeChain, links]
  rfl

theorem published_withHead (power : vq.vring.num.toNat = 2 ^ shift) (small : shift ≤ 15)
    (shadow : vq.availIdxShadow = vq.vring.availIdx) {last : UInt16}
    (room : (vq.vring.published last).length < 2 ^ shift) (inside : vq.freeHead.toNat < 2 ^ shift) :
    (vq.withHead table data desc pa len).vring.published last =
      vq.vring.published last ++ [vq.freeHead.toNat] := by
  have big : 2 ^ shift ≤ 2 ^ 15 := Nat.pow_le_pow_right (by decide) small
  have short : vq.freeHead.toUInt16.toNat = vq.freeHead.toNat := by
    rw [toNat_toUInt16]
    omega
  have pushed := published_push power small room vq.freeHead.toUInt16
  rw [short, ← shadow] at pushed
  exact pushed

theorem descState_withHead_self :
    (vq.withHead table data desc pa len).descState vq.freeHead.toNat = ⟨data, desc⟩ :=
  update_self ..

end WithHead

/-- A table that `kmalloc` has memory for has a length in bytes that is not zero. -/
theorem tableLen_ok {count : Nat} (two : 2 ≤ count)
    (fits : count * sizeofVringDesc.toNat ≤ kmallocMaxCacheSize) :
    UInt32.ofNat count > 1 ∧ UInt32.ofNat count * sizeofVringDesc ≠ 0 ∧
      UInt32.ofNat count * sizeofVringDesc % sizeofVringDesc = 0 := by
  have sixteen : sizeofVringDesc.toNat = 16 := rfl
  rw [sixteen, kmallocMaxCacheSize] at fits
  have total : (ofNat count).toNat = count :=
    toNat_ofNat_of_lt' (lt_of_le_of_lt (show count ≤ 2 ^ 22 by omega) (by decide))
  have len : (ofNat count * sizeofVringDesc).toNat = count * 16 := by
    rw [UInt32.toNat_mul, sixteen]
    omega
  refine ⟨lt_iff_toNat_lt.mpr (by rw [total]; exact two), fun zero => ?_, UInt32.toNat_inj.mp ?_⟩
  · have value := congrArg toNat zero
    rw [UInt32.toNat_zero] at value
    omega
  · rw [UInt32.toNat_mod, len]
    exact mul_mod_left _ 16

theorem VqWorld.Sound.add (sound : world.Sound shift) (small : shift ≤ 15)
    {outSgs inSgs : List Scatter}
    {data desc : UInt64} (may : mayAdd world.vq outSgs inSgs data desc = true) (pa : UInt64) :
    ∃ vq, virtqueueAddSgs world.vq outSgs inSgs data desc pa = .ok vq ∧
      ({ world with vq, added := world.added ++ [data] } : VqWorld).Sound shift ∧
      vq.vring.published world.device.lastAvailIdx =
        world.vq.vring.published world.device.lastAvailIdx ++ [world.vq.freeHead.toNat] ∧
      ({ world with vq, added := world.added ++ [data] } : VqWorld).inFlight =
        world.inFlight + {world.vq.freeHead.toNat} ∧
      vq.token world.vq.freeHead.toNat = data := by
  obtain ⟨two, token, free, memory, fits⟩ := of_decide_eq_true may
  have counted := sound.count
  have chained := freeChain_cons free
  have member : world.vq.freeHead.toNat ∈ world.vq.freeChain := by
    rw [chained]
    exact mem_cons_self
  have inside := sound.lt_num (Multiset.mem_add.mpr (.inl member))
  have fresh : ∀ head ∈ world.inFlight, head ≠ world.vq.freeHead.toNat := fun head flying same =>
    sound.not_mem_freeChain flying (same ▸ member)
  have positive : 0 < world.vq.numFree.toNat := pos_of_ne_zero fun zero =>
    free (UInt32.toNat_inj.mp zero)
  obtain ⟨more, whole⟩ := tableLen_ok two fits
  have published : (world.vq.withHead (indirectTable outSgs inSgs) data desc pa
      (ofNat (outSgs.length + inSgs.length) * sizeofVringDesc)).vring.published
        world.device.lastAvailIdx = _ :=
    published_withHead sound.num small sound.shadow (by omega) inside
  refine ⟨_, virtqueueAddSplit_ok sound.works.2.1 more free memory (lt_iff_toNat_lt.mpr
    (sound.num ▸ inside)) outSgs inSgs data pa, and_left_comm.mp ⟨published, ?_⟩⟩
  generalize indirectTable outSgs inSgs = table at published ⊢
  generalize ofNat (outSgs.length + inSgs.length) * sizeofVringDesc = len at published whole ⊢
  have flight : ({ world with
      vq := world.vq.withHead table data desc pa len
      added := world.added ++ [data] } : VqWorld).inFlight = world.inFlight +
        {world.vq.freeHead.toNat} := by
    rw [VqWorld.inFlight]
    rw [published, ← Multiset.coe_add, Multiset.coe_singleton, VqWorld.inFlight]
    abel
  have new : (world.vq.withHead table data desc pa len).token world.vq.freeHead.toNat = data := by
    rw [Virtqueue.token, descState_withHead_self]
  refine ⟨⟨sound.num, sound.works, ?_, ?_, ?_, fun head flying => ?_⟩, flight, new⟩
  · rfl
  · rw [VqWorld.Partitioned, flight, freeChain_withHead]
    have before := sound.partitioned
    rw [VqWorld.Partitioned, chained, ← Multiset.cons_coe, ← Multiset.singleton_add] at before
    show _ = Multiset.range world.vq.vring.num.toNat
    rw [← before]
    abel
  · have tokens : world.inFlight.map (world.vq.withHead table data desc pa len).token =
        world.inFlight.map world.vq.token :=
      Multiset.map_congr rfl fun head flying =>
        congrArg VringDescState.data (update_of_ne (fresh head flying) _ _)
    rw [VqWorld.Accounted, flight, Multiset.map_add, tokens, Multiset.map_singleton, new,
      ← Multiset.coe_add, ← show _ = _ from sound.accounted]
    abel
  · rw [flight, Multiset.mem_add, Multiset.mem_singleton] at flying
    rcases flying with flying | rfl
    · have other := fresh head flying
      exact (sound.taken head flying).congr (update_of_ne other _ _) (update_of_ne other _ _)
    · constructor <;> simp [Virtqueue.token, descState_withHead_self, desc_withHead_self, *]

/-! ### Collecting -/

/-- The queue with a head put back in front of the free chain. -/
def Virtqueue.withoutHead (vq : Virtqueue) (head : UInt32) : Virtqueue :=
  { vq with
    vring.desc := update vq.vring.desc head.toNat
      { vq.vring.desc head.toNat with next := vq.freeHead.toUInt16 }
    descState := update vq.descState head.toNat ⟨0, 0⟩
    freeHead := head
    numFree := vq.numFree + 1 }

theorem detachBufSplit_ok {vq : Virtqueue} {head : UInt32} (inside : head < vq.vring.num)
    (taken : vq.Taken head.toNat) (indirect : vq.indirect = true) (noDma : vq.useDmaApi = false) :
    detachBufSplit vq head = .ok (vq.withoutHead head) := by
  obtain ⟨-, table, flags, len⟩ := taken
  have noUnmap : ∀ queue : Virtqueue, queue.useDmaApi = false → vringUnmapOneSplit queue = .ok () :=
    fun queue none => by rw [vringUnmapOneSplit, none, if_neg Bool.false_ne_true]
  have last : (vq.vring.desc head.toNat).flags &&& vringDescFNext = 0 := by
    rw [flags]
    rfl
  have ran : ∀ queue : Virtqueue, queue.vring = vq.vring →
      detachLoop (18446744073709551615 + 1) queue head.toNat = .ok (queue, head.toNat) :=
    fun queue same => by
      rw [detachLoop, same, if_neg (not_le.mpr (lt_iff_toNat_lt.mp inside)), if_pos last]
  have mark : ¬(vq.vring.desc head.toNat).flags &&& vringDescFIndirect = 0 := by
    rw [flags]
    decide
  have whole : ¬((vq.vring.desc head.toNat).len = 0 ∨
      (vq.vring.desc head.toNat).len % sizeofVringDesc ≠ 0) := not_or.mpr ⟨len.1, not_not.mpr len.2⟩
  rw [detachBufSplit, maxTurns_eq]
  rw [ran]
  · rw [Kernel.ok_bind]
    dsimp only
    rw [noUnmap, freeIndirect, if_pos indirect]
    · simp only [update_self]
      rw [if_neg table, if_neg mark, if_neg whole, noUnmap]
      · simp only [update_idem]
        rfl
      · exact noDma
    · exact noDma
  · rfl

section WithoutHead

variable {vq : Virtqueue} {head : UInt32}

theorem freeChain_withoutHead (fresh : head.toNat ∉ vq.freeChain)
    (short : ∀ free ∈ vq.freeChain, free < 2 ^ 16) (room : vq.numFree.toNat + 1 < 2 ^ 32) :
    (vq.withoutHead head).freeChain = head.toNat :: vq.freeChain := by
  have more : (vq.numFree + 1).toNat = vq.numFree.toNat + 1 := by
    rw [UInt32.toNat_add, UInt32.toNat_one]
    omega
  have links : (fun i => ((vq.withoutHead head).vring.desc i).next.toNat) =
      update (fun i => (vq.vring.desc i).next.toNat) head.toNat vq.freeHead.toUInt16.toNat := by
    funext i
    simp only [Virtqueue.withoutHead, update_apply]
    split_ifs <;> rfl
  rw [Virtqueue.freeChain, links]
  show chain _ head.toNat (vq.numFree + 1).toNat = _
  rw [more]
  by_cases none : vq.numFree = 0
  · rw [Virtqueue.freeChain, none]
    rfl
  · have member : vq.freeHead.toNat ∈ vq.freeChain := by
      rw [freeChain_cons none]
      exact mem_cons_self
    have same : vq.freeHead.toUInt16.toNat = vq.freeHead.toNat := by
      exact mod_eq_of_lt (short _ member)
    rw [same]
    exact chain_push fresh

end WithoutHead

/-- The token of a head is returned to the driver. -/
abbrev VqWorld.returning (world : VqWorld) (vq : Virtqueue) (token : UInt64) : VqWorld :=
  { world with vq, returned := world.returned ++ [token] }

/-- `virtqueue_get_buf` returns the token of a posted head, which is not in flight any more. -/
theorem VqWorld.Sound.getBuf (sound : world.Sound shift) (small : shift ≤ 15)
    (more : world.vq.lastUsedIdx ≠ world.vq.vring.usedIdx) :
    ∃ head len vq, virtqueueGetBuf world.vq = .ok (world.vq.token head, len, vq) ∧
      world.vq.token head ≠ 0 ∧
      (∀ last, vq.vring.published last = world.vq.vring.published last) ∧
      world.inFlight = {head} + (world.returning vq (world.vq.token head)).inFlight ∧
      (world.returning vq (world.vq.token head)).Sound shift := by
  have posted := posted_cons sound.num small more
  generalize cell : world.vq.vring.usedRing (ringCell world.vq.vring.num world.vq.lastUsedIdx) =
    elem at posted
  have flying : elem.id.toNat ∈ world.inFlight := by
    rw [VqWorld.inFlight, posted]
    exact Multiset.mem_add.mpr (.inr (Multiset.mem_coe.mpr mem_cons_self))
  have taken := sound.taken _ flying
  have inside := sound.lt_num (Multiset.mem_add.mpr (.inr flying))
  have below : elem.id < world.vq.vring.num := lt_iff_toNat_lt.mpr (sound.num ▸ inside)
  have token : (world.vq.descState elem.id.toNat).data ≠ 0 := taken.token
  have ran : virtqueueGetBuf world.vq = .ok (world.vq.token elem.id.toNat, elem.len,
      { world.vq.withoutHead elem.id with lastUsedIdx := world.vq.lastUsedIdx + 1 }) := by
    rw [virtqueueGetBuf, sound.works.1, if_neg more]
    rw [cell, if_neg (UInt32.not_le.mpr below), if_neg token,
      detachBufSplit_ok below taken sound.works.2.1 sound.works.2.2]
    rfl
  have flight : world.inFlight = {elem.id.toNat} + (world.returning
      { world.vq.withoutHead elem.id with lastUsedIdx := world.vq.lastUsedIdx + 1 }
      (world.vq.token elem.id.toNat)).inFlight := by
    have published : (world.vq.withoutHead elem.id).vring.published world.device.lastAvailIdx =
        world.vq.vring.published world.device.lastAvailIdx := rfl
    rw [VqWorld.inFlight, posted, VqWorld.inFlight, ← Multiset.cons_coe]
    rw [published]
    abel
  refine ⟨_, _, _, ran, token, fun _ => rfl, flight, ?_⟩
  generalize left : (world.returning _ _).inFlight = rest at flight
  have big : 2 ^ shift ≤ 2 ^ 15 := Nat.pow_le_pow_right (by decide) small
  have counted := sound.count
  have free := freeChain_withoutHead (sound.not_mem_freeChain flying)
    (fun one member => (sound.lt_num (Multiset.mem_add.mpr (.inl member))).trans_le
      (big.trans (by decide))) (by omega)
  have apart : ∀ head ∈ rest, head ≠ elem.id.toNat := fun head member same => by
    have twice := (Multiset.nodup_add.mp sound.nodup).2.1
    rw [flight, Multiset.singleton_add, Multiset.nodup_cons] at twice
    exact twice.1 (same ▸ member)
  refine ⟨sound.num, sound.works, sound.shadow, ?_, ?_, ?_⟩
  · have before := sound.partitioned
    rw [VqWorld.Partitioned, flight] at before
    rw [VqWorld.Partitioned, left]
    show ↑(world.vq.withoutHead elem.id).freeChain + rest = Multiset.range world.vq.vring.num.toNat
    rw [← before, free, ← Multiset.cons_coe, ← Multiset.singleton_add]
    abel
  · have before := sound.accounted
    have tokens : rest.map (world.vq.withoutHead elem.id).token = rest.map world.vq.token :=
      Multiset.map_congr rfl fun head member =>
        congrArg VringDescState.data (update_of_ne (apart head member) _ _)
    rw [VqWorld.Accounted, flight, Multiset.map_add, Multiset.map_singleton] at before
    rw [VqWorld.Accounted, left]
    show ↑(world.returned ++ [world.vq.token elem.id.toNat]) +
      rest.map (world.vq.withoutHead elem.id).token = ↑world.added
    rw [tokens, ← before, ← Multiset.coe_add, Multiset.coe_singleton]
    abel
  · rw [left]
    intro head member
    have other := apart head member
    exact (sound.taken head (flight ▸ Multiset.mem_add.mpr (.inr member))).congr
      (update_of_ne other _ _) (update_of_ne other _ _)

end Steps

/-! ### Runs -/

section Runs

variable {num : UInt32} {shift : Nat} {world : VqWorld}

theorem next_vringNewVirtqueue {i : Nat} (inside : i < num.toNat - 1) :
    ((vringNewVirtqueue num).vring.desc i).next.toNat = (i + 1) % 2 ^ 16 := by
  rw [vringNewVirtqueue]
  dsimp only
  rw [if_pos inside, UInt16.toNat_ofNat']

theorem inFlight_newVqWorld (num : UInt32) : (newVqWorld num).inFlight = 0 := by
  have none : ((0 : UInt16) - 0).toNat = 0 := by decide
  have published : (newVqWorld num).vq.vring.published 0 = [] :=
    length_eq_zero_iff.mp ((length_published _ _).trans none)
  have posted : (newVqWorld num).vq.vring.posted 0 = [] :=
    length_eq_zero_iff.mp ((length_posted _ _).trans none)
  rw [VqWorld.inFlight, show (newVqWorld num).device.lastAvailIdx = 0 from rfl,
    show (newVqWorld num).vq.lastUsedIdx = 0 from rfl, published, posted]
  rfl

theorem sound_newVqWorld (power : num.toNat = 2 ^ shift) (small : shift ≤ 15) :
    (newVqWorld num).Sound shift := by
  have big : 2 ^ shift ≤ 2 ^ 15 := Nat.pow_le_pow_right (by decide) small
  have free : (vringNewVirtqueue num).freeChain = range num.toNat := by
    rw [range_eq_range']
    refine chain_eq_range' fun index low _ => ?_
    have inside : index < num.toNat - 1 := (zero_add num.toNat) ▸ low
    rw [next_vringNewVirtqueue inside]
    omega
  have flight := inFlight_newVqWorld num
  refine ⟨power, ⟨rfl, rfl, rfl⟩, rfl, ?_, ?_, fun head flying => ?_⟩
  · rw [VqWorld.Partitioned, flight, add_zero]
    exact congrArg _ free
  · rw [VqWorld.Accounted, flight]
    rfl
  · rw [flight] at flying
    exact absurd flying (Multiset.notMem_zero _)

/-- A step is misuse, or it keeps the queue sound and the published heads in their places. -/
theorem VqWorld.Sound.vqStep (sound : world.Sound shift) (small : shift ≤ 15) (step : VqStep) :
    Xlinux.vqStep world step = .error .misuse ∨ ∃ next, Xlinux.vqStep world step = .ok next ∧
      next.Sound shift ∧ world.vq.vring.published world.device.lastAvailIdx <+:
        next.vq.vring.published world.device.lastAvailIdx := by
  cases step with
  | add outSgs inSgs data desc pa =>
    rw [Xlinux.vqStep]
    split_ifs with may
    · obtain ⟨vq, ran, kept, published, -⟩ := sound.add small may pa
      rw [ran]
      exact .inr ⟨_, rfl, kept, published ▸ prefix_append _ _⟩
    · exact .inl rfl
  | getBuf =>
    right
    rw [Xlinux.vqStep]
    by_cases none : world.vq.lastUsedIdx = world.vq.vring.usedIdx
    · have ran : virtqueueGetBuf world.vq = .ok (0, 0, world.vq) := by
        rw [virtqueueGetBuf, sound.works.1, if_neg Bool.false_ne_true, if_pos none]
      rw [ran]
      exact ⟨world, rfl, sound, prefix_rfl⟩
    · obtain ⟨head, len, vq, ran, token, published, -, kept⟩ := sound.getBuf small none
      rw [ran]
      dsimp only
      rw [if_neg token]
      exact ⟨_, rfl, kept, published _ ▸ prefix_rfl⟩
  | consume =>
    exact (sound.device small (.inl rfl)).imp_right
      fun ⟨next, ran, kept, _, _, published⟩ => ⟨next, ran, kept, published _ ▸ prefix_rfl⟩
  | post head len =>
    exact (sound.device small (.inr ⟨head, len, rfl⟩)).imp_right
      fun ⟨next, ran, kept, _, _, published⟩ => ⟨next, ran, kept, published _ ▸ prefix_rfl⟩

theorem VqWorld.Sound.posted_getBuf (sound : world.Sound shift) (small : shift ≤ 15)
    (some : world.vq.vring.posted world.vq.lastUsedIdx ≠ []) :
    ∃ ret len vq, virtqueueGetBuf world.vq = .ok (ret, len, vq) ∧ ret ≠ 0 := by
  have more : world.vq.lastUsedIdx ≠ world.vq.vring.usedIdx := mt posted_eq_nil_iff.mpr some
  obtain ⟨_, len, vq, ran, token, -⟩ := sound.getBuf small more
  exact ⟨_, len, vq, ran, token⟩

end Runs

/-- In every interleaving of the driver and an honest device, for every size that virtio allows,
the free chain and the heads in flight partition the descriptors, the tokens that were added are
those that were returned and those in flight, a posted head is collected by the next
`virtqueue_get_buf`, no published head is overwritten, and the kernel is not stopped. -/
theorem vqStep_run_partitioned (shift : Nat) (small : shift ≤ 15) (num : UInt32)
    (power : num.toNat = 2 ^ shift) (steps : List VqStep) :
    (∀ world, Run.run vqStep (newVqWorld num) steps = .ok world →
      world.Partitioned ∧ world.Accounted ∧
      (world.vq.vring.posted world.vq.lastUsedIdx ≠ [] →
        ∃ ret len vq, virtqueueGetBuf world.vq = .ok (ret, len, vq) ∧ ret ≠ 0) ∧
      ∀ step next, vqStep world step = .ok next →
        world.vq.vring.published world.device.lastAvailIdx <+:
          next.vq.vring.published world.device.lastAvailIdx) ∧
      ∀ fault, Run.run vqStep (newVqWorld num) steps ≠ .error (.fault fault) := by
  have stepped : ∀ world step, VqWorld.Sound shift world → vqStep world step = .error .misuse ∨
      ∃ next, vqStep world step = .ok next ∧ next.Sound shift := fun world step sound =>
    (sound.vqStep small step).imp_right fun ⟨next, ran, kept, _⟩ => ⟨next, ran, kept⟩
  rcases Run.run_or_error stepped (sound_newVqWorld power small) steps with misuse | ⟨final,
    ran, sound⟩
  · rw [misuse]
    exact ⟨nofun, nofun⟩
  · rw [ran]
    refine ⟨?_, nofun⟩
    rintro world ⟨rfl⟩
    refine ⟨sound.partitioned, sound.accounted, sound.posted_getBuf small,
      fun step next taken => ?_⟩
    obtain misuse | ⟨after, same, -, published⟩ := sound.vqStep small step
    · cases misuse.symm.trans taken
    · exact Except.ok.inj (same.symm.trans taken) ▸ published

/-- A request of two entries that the device answers. -/
def oneRequest : List VqStep :=
  [.add [⟨0x1000, 16⟩] [⟨0x2000, 512⟩] 7 0x8000 0x8000, .consume, .post 0 512, .getBuf]

theorem vqStep_run_partitioned_request :
    ∃ world, Run.run vqStep (newVqWorld 4) oneRequest = .ok world ∧ world.Partitioned ∧
      world.Accounted ∧ world.returned = [7] := by
  have result := vqStep_run_partitioned 2 (by decide) 4 rfl oneRequest
  have returned : (Run.run vqStep (newVqWorld 4) oneRequest).map VqWorld.returned = .ok [7] := by
    decide +kernel
  obtain ⟨world, ran, returned⟩ := exists_ok_of_map returned
  obtain ⟨partitioned, accounted, -⟩ := result.1 world ran
  exact ⟨world, ran, partitioned, accounted, returned⟩

/-- The free chain of a queue of `2 ^ 17` descriptors comes back to its head after `2 ^ 16`. -/
theorem newVqWorld_not_partitioned :
    (0x20000 : UInt32).toNat = 2 ^ 17 ∧
      Run.run vqStep (newVqWorld 0x20000) [] = .ok (newVqWorld 0x20000) ∧
      ¬(newVqWorld 0x20000).Partitioned := by
  refine ⟨rfl, rfl, fun partitioned => ?_⟩
  have flight := inFlight_newVqWorld 0x20000
  have nodup : (vringNewVirtqueue 0x20000).freeChain.Nodup := by
    rw [VqWorld.Partitioned, flight, add_zero] at partitioned
    rw [← Multiset.coe_nodup]
    exact partitioned ▸ Multiset.nodup_range _
  have links : ∀ i,
      (fun j => ((vringNewVirtqueue 0x20000).vring.desc j).next.toNat)^[i] 0 = i % 2 ^ 16 := by
    intro i
    induction i with
    | zero => rfl
    | succ i ih =>
      rw [iterate_succ_apply', ih,
        next_vringNewVirtqueue (show i % 2 ^ 16 < 0x20000 - 1 by omega)]
      omega
  have small : 2 ^ 16 < (0x20000 : UInt32).toNat := by decide
  have first : (vringNewVirtqueue 0x20000).freeChain[0]? = some 0 :=
    (getElem?_chain (zero_lt_of_lt small)).trans (congrArg some (links 0))
  have again : (vringNewVirtqueue 0x20000).freeChain[2 ^ 16]? = some 0 :=
    (getElem?_chain small).trans (congrArg some (links (2 ^ 16)))
  exact nodup_iff_getElem?_ne_getElem?.mp nodup 0 (2 ^ 16) (by decide)
    (by rw [Virtqueue.freeChain, length_chain]; decide) (first.trans again.symm)

end Xlinux
