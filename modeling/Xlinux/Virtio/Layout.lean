/-
This file is about the memory of a virtqueue. `vring_size` of
`include/virtio_ring.h` says how much memory a queue needs, and `vring_init` where
its parts are; `vring_create_virtqueue_split` of `virtio/virtio_ring.c` halves the
queue until there is memory for it.
-/

import Xlinux.Kernel
import Xlinux.Word

namespace Xlinux

open Nat

/-! ### The code -/

/-- `vring_size`. -/
def vringSize (num : UInt32) (align : UInt64) : UInt32 :=
  let ret := (16 * num.toUInt64 + 2 * (3 + num).toUInt64).toUInt32
  let ret := alignUInt ret align
  let ret := (ret.toUInt64 + 2 * 3).toUInt32
  (ret.toUInt64 + 8 * num.toUInt64).toUInt32

/-- The addresses of a `struct vring`. -/
structure VringPlace where
  num : UInt32
  desc : UInt64
  avail : UInt64
  used : UInt64

/-- `vring_init`. -/
def vringInit (num : UInt32) (p align : UInt64) : VringPlace where
  num
  desc := p
  avail := p + num.toUInt64 * 16
  used := alignTo (p + num.toUInt64 * 16 + (4 + 2 * num.toUInt64) + 2) align

section Code

/- `alloc_pages_exact` with and without `__GFP_NOWARN`, for a size of the queue, which is tried
once, by the number of bytes. -/
variable (alloc : Bool → UInt32 → UInt64 → UInt64) (vringAlign : UInt32)

/-- `vring_alloc_queue`, for a device without `VIRTIO_F_ACCESS_PLATFORM`. -/
def vringAllocQueue (noWarn : Bool) (num : UInt32) : UInt64 :=
  alloc noWarn num (pageAlign (vringSize num vringAlign.toUInt64).toUInt64)

/-- The loop of `vring_create_virtqueue_split`. -/
def vringAllocLoop (mayReduceNum : Bool) (num : UInt32) : Option (UInt32 × UInt64) :=
  if more : num ≠ 0 ∧ (vringSize num vringAlign.toUInt64).toUInt64 > pageSize then
    let queue := vringAllocQueue alloc vringAlign true num
    if queue ≠ 0 then some (num, queue)
    else if mayReduceNum then vringAllocLoop mayReduceNum (num / 2)
    else none
  else some (num, 0)
termination_by num.toNat
decreasing_by
  rw [UInt32.toNat_div]
  exact div_lt_self (pos_of_ne_zero fun zero => more.1 (UInt32.toNat_inj.mp zero)) (by decide)

/-- `vring_create_virtqueue_split`, up to the queue it sets up. -/
def vringCreateVirtqueueSplit (mayReduceNum : Bool) (num : UInt32) : Kernel (Option VringPlace) :=
  if num &&& (num - 1) ≠ 0 then
    throw (.panic ("Bad virtqueue length " ++ toString num ++ "\n"))
  else match vringAllocLoop alloc vringAlign mayReduceNum num with
    | none => return none
    | some (num, queue) =>
      if num = 0 then return none
      else
        let queue := if queue = 0 then vringAllocQueue alloc vringAlign false num else queue
        if queue = 0 then return none else return some (vringInit num queue vringAlign.toUInt64)

end Code

/-! ### The parts of a queue -/

/-- The descriptors, the available ring with `used_event` and the used ring with `avail_event` are
one behind the other, within the memory of the queue and aligned. -/
structure VringPlace.Fits (vring : VringPlace) (align : UInt64) : Prop where
  apart : vring.desc.toNat + 16 * vring.num.toNat ≤ vring.avail.toNat ∧
    vring.avail.toNat + (4 + 2 * vring.num.toNat + 2) ≤ vring.used.toNat
  inside : vring.used.toNat + (4 + 8 * vring.num.toNat + 2) ≤
    vring.desc.toNat + (vringSize vring.num align).toNat
  aligned : 16 ∣ vring.desc.toNat ∧ 2 ∣ vring.avail.toNat ∧ 4 ∣ vring.used.toNat

variable {num : UInt32} {align : UInt64} {shift : Nat}

section

variable (most : num.toNat ≤ 2 ^ 15) (power : align.toNat = 2 ^ shift)
    (large : 2 ≤ shift ∧ shift ≤ 12)

include most power large

theorem toNat_vringSize : (vringSize num align).toNat =
    alignNat (18 * num.toNat + 6) (2 ^ shift) + (6 + 8 * num.toNat) := by
  have page : 2 ^ shift ≤ 2 ^ 12 := Nat.pow_le_pow_right (by decide) large.2
  have least : alignNat (18 * num.toNat + 6) (2 ^ shift) ≤ 18 * num.toNat + 6 + (2 ^ shift - 1) :=
    div_mul_le_self ..
  have first : (16 * num.toUInt64 + 2 * (3 + num).toUInt64).toUInt32.toNat =
      18 * num.toNat + 6 := by
    show (16 * num.toNat % 2 ^ 64 + 2 * ((3 + num.toNat) % 2 ^ 32) % 2 ^ 64) % 2 ^ 64 % 2 ^ 32 = _
    omega
  have rounded := toNat_alignUInt (x := (16 * num.toUInt64 + 2 * (3 + num).toUInt64).toUInt32) power
    (by rw [first]; omega)
  rw [first] at rounded
  rw [vringSize]
  simp only [UInt64.toNat_toUInt32, UInt64.toNat_add, UInt64.toNat_mul,
    UInt32.toNat_toUInt64, rounded]
  show ((alignNat _ _ + 6) % 2 ^ 64 % 2 ^ 32 + 8 * num.toNat % 2 ^ 64) % 2 ^ 64 % 2 ^ 32 = _
  omega

/-- In memory that begins with a page, the parts of a queue fit. -/
theorem vringInit_fits {p : UInt64} (page : 4096 ∣ p.toNat)
    (room : p.toNat + (vringSize num align).toNat ≤ 2 ^ 64) :
    (vringInit num p align).Fits align := by
  have size := toNat_vringSize most power large
  have positive : 0 < 2 ^ shift := Nat.two_pow_pos shift
  have least : 18 * num.toNat + 6 ≤ alignNat (18 * num.toNat + 6) (2 ^ shift) :=
    le_alignNat positive
  have avail : (p + num.toUInt64 * 16).toNat = p.toNat + 16 * num.toNat := by
    show (p.toNat + num.toNat * 16 % 2 ^ 64) % 2 ^ 64 = _
    omega
  have last : (p + num.toUInt64 * 16 + (4 + 2 * num.toUInt64) + 2).toNat =
      p.toNat + (18 * num.toNat + 6) := by
    rw [UInt64.toNat_add, UInt64.toNat_add, avail, UInt64.toNat_add, UInt64.toNat_mul,
      UInt32.toNat_toUInt64]
    show ((p.toNat + 16 * num.toNat + (4 + 2 * num.toNat % 2 ^ 64) % 2 ^ 64) % 2 ^ 64 +
      2) % 2 ^ 64 = _
    omega
  have whole : 2 ^ shift ∣ 4096 := pow_dvd_pow 2 large.2
  have multiple : align.toNat ∣ p.toNat + alignNat (18 * num.toNat + 6) (2 ^ shift) := by
    rw [power]
    exact Nat.dvd_add (whole.trans page) (dvd_mul_left ..)
  have within :=
    room_of_multiple power multiple (last.trans_le (Nat.add_le_add_left least _)) (by omega)
  obtain ⟨aligned, behind, -, first⟩ := alignTo_spec power within
  have before := first _ multiple (last.trans_le (Nat.add_le_add_left least _))
  have four : 4 ∣ align.toNat := power ▸ pow_dvd_pow 2 large.1
  rw [last] at behind
  refine ⟨⟨avail.ge, ?_⟩, ?_, (by decide : 16 ∣ 4096).trans page, ?_, four.trans aligned⟩
  · show (p + num.toUInt64 * 16).toNat + (4 + 2 * num.toNat + 2) ≤ _
    exact le_of_eq_of_le (by rw [avail]; omega) behind
  · show _ + (4 + 8 * num.toNat + 2) ≤ p.toNat + (vringSize num align).toNat
    exact (Nat.add_le_add_right before _).trans_eq (by rw [size]; omega)
  · show 2 ∣ (p + num.toUInt64 * 16).toNat
    omega

end

variable {alloc : Bool → UInt32 → UInt64 → UInt64} {vringAlign : UInt32}

theorem vringAllocLoop_spec {mayReduceNum : Bool} {made : UInt32} {queue : UInt64}
    (ends : vringAllocLoop alloc vringAlign mayReduceNum num = some (made, queue)) :
    made.toNat ≤ num.toNat ∧ (queue ≠ 0 → queue = vringAllocQueue alloc vringAlign true made) := by
  fun_induction vringAllocLoop alloc vringAlign mayReduceNum num with
  | case1 num more found nonzero =>
    obtain ⟨rfl, rfl⟩ := Prod.mk.inj (Option.some.inj ends)
    exact ⟨le_rfl, fun _ => rfl⟩
  | case2 num more found none reduce ih =>
    obtain ⟨less, made⟩ := ih ends
    exact ⟨less.trans ((UInt32.toNat_div ..).trans_le (div_le_self ..)), made⟩
  | case3 => cases ends
  | case4 =>
    cases ends
    exact ⟨le_rfl, fun nonzero => (nonzero rfl).elim⟩

/-- A queue that is set up begins at what was allocated for `vring_size` bytes, rounded up to pages,
and fits in these bytes, whatever its size is reduced to. -/
theorem vringCreateVirtqueueSplit_fits {size : Nat} (power : num.toNat = 2 ^ size)
    (most : size ≤ 15) (alignPower : vringAlign.toNat = 2 ^ shift) (large : 2 ≤ shift ∧ shift ≤ 12)
    (pages : ∀ noWarn num bytes, alloc noWarn num bytes ≠ 0 →
      4096 ∣ (alloc noWarn num bytes).toNat ∧ (alloc noWarn num bytes).toNat + bytes.toNat ≤ 2 ^ 64)
    (mayReduceNum : Bool) :
    ∃ made, vringCreateVirtqueueSplit alloc vringAlign mayReduceNum num = .ok made ∧
      ∀ vring ∈ made, vring.num.toNat ≤ num.toNat ∧ vring.desc ≠ 0 ∧
        (∃ noWarn, vring.desc = alloc noWarn vring.num
          (pageAlign (vringSize vring.num vringAlign.toUInt64).toUInt64)) ∧
        vring.Fits vringAlign.toUInt64 := by
  have single : num &&& (num - 1) = 0 := by
    have value : num = UInt32.ofNat (2 ^ size) := by
      rw [← power, UInt32.ofNat_toNat]
    rw [value]
    interval_cases size <;> decide
  have fits {made : UInt32} {noWarn : Bool} (less : made.toNat ≤ num.toNat)
      (found : vringAllocQueue alloc vringAlign noWarn made ≠ 0) :
      (vringInit made (vringAllocQueue alloc vringAlign noWarn made) vringAlign.toUInt64).Fits
        vringAlign.toUInt64 := by
    have small : made.toNat ≤ 2 ^ 15 := less.trans (power ▸ Nat.pow_le_pow_right (by decide) most)
    obtain ⟨page, room⟩ := pages _ _ _ found
    refine vringInit_fits small ((UInt32.toNat_toUInt64 _).trans alignPower) large page ?_
    have short := (vringSize made vringAlign.toUInt64).toNat_lt
    have rounded : (pageAlign (vringSize made vringAlign.toUInt64).toUInt64).toNat = _ :=
      toNat_roundDown (show pageSize.toNat = 2 ^ 12 from rfl) _
    rw [UInt64.toNat_sub, UInt64.toNat_add, UInt32.toNat_toUInt64, toNat_pageSize,
      UInt64.toNat_one] at rounded
    exact (Nat.add_le_add_left (by omega) _).trans room
  rw [vringCreateVirtqueueSplit, if_neg (not_not.mpr single)]
  cases ends : vringAllocLoop alloc vringAlign mayReduceNum num with
  | none => exact ⟨none, rfl, nofun⟩
  | some pair =>
    obtain ⟨made, queue⟩ := pair
    obtain ⟨less, found⟩ := vringAllocLoop_spec ends
    dsimp only
    split_ifs with none zero fails
    · exact ⟨.none, rfl, nofun⟩
    · exact ⟨.none, rfl, nofun⟩
    · refine ⟨_, rfl, ?_⟩
      rintro _ ⟨⟩
      exact ⟨less, fails, ⟨false, rfl⟩, fits less fails⟩
    · refine ⟨_, rfl, ?_⟩
      rintro _ ⟨⟩
      obtain rfl := found zero
      exact ⟨less, zero, ⟨true, rfl⟩, fits less zero⟩

/-- A queue of sixteen descriptors in a page. -/
theorem vringCreateVirtqueueSplit_fits_page :
    let alloc :=
      fun (_ : Bool) (_ : UInt32) (bytes : UInt64) => if bytes = pageSize then pageSize else 0
    ∃ vring, vringCreateVirtqueueSplit alloc 4 true 16 = .ok (some vring) ∧
      vring.num.toNat ≤ (16 : UInt32).toNat ∧ vring.desc ≠ 0 ∧
      (∃ noWarn, vring.desc =
        alloc noWarn vring.num (pageAlign (vringSize vring.num (4 : UInt32).toUInt64).toUInt64)) ∧
      vring.Fits (4 : UInt32).toUInt64 := by
  intro alloc
  have pages (noWarn num bytes) (some : alloc noWarn num bytes ≠ 0) :
      4096 ∣ (alloc noWarn num bytes).toNat ∧
        (alloc noWarn num bytes).toNat + bytes.toNat ≤ 2 ^ 64 := by
    obtain rfl : bytes = pageSize := by_contra fun other => some (if_neg other)
    exact ⟨by decide, by decide⟩
  obtain ⟨made, ran, fits⟩ :=
    vringCreateVirtqueueSplit_fits (show (16 : UInt32).toNat = 2 ^ 4 from rfl)
    (by decide) (show (4 : UInt32).toNat = 2 ^ 2 from rfl) (by decide) pages true
  have set : vringCreateVirtqueueSplit alloc 4 true 16 = .ok (some (vringInit 16 pageSize 4)) := by
    rw [vringCreateVirtqueueSplit, vringAllocLoop]
    rfl
  rw [set] at ran
  cases ran
  exact ⟨_, set, fits _ rfl⟩

end Xlinux
