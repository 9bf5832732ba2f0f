/-
This file is about `register_chrdev_region` of `fs/char_dev.c`, which goes
through a range of device numbers and registers the part of it that lies in each
major number. The number of the next major wraps around behind the last one, and
the loop starts again at the device number zero.
-/

import Xlinux.Kernel
import Xlinux.Word

namespace Xlinux

open List Nat UInt32

/-! ### The code -/

/-- The macro `MAJOR(dev)`. -/
def major (dev : UInt32) : UInt32 := dev >>> 20

/-- The macro `MINOR(dev)`. -/
def minor (dev : UInt32) : UInt32 := dev &&& 0xfffff

/-- The macro `MKDEV(ma, mi)`. -/
def mkdev (ma mi : UInt32) : UInt32 := ma <<< 20 ||| mi

/-- The numbers that `__register_chrdev_region` is called with. -/
structure ChrdevRegion where
  major : UInt32
  baseminor : UInt32
  minorct : UInt32
  deriving DecidableEq, Repr

/-- `__register_chrdev_region`, which returns `NULL`. -/
def registerOneRegion (_ : ChrdevRegion) : UInt64 := 0

/-- The loop of `register_chrdev_region`, with the calls it makes. -/
def registerRegionsLoop (stop : UInt32) : Nat → UInt32 → Kernel (List ChrdevRegion)
  | 0, _ => .error .endless
  | turns + 1, n =>
    if n < stop then do
      let next := mkdev (major n + 1) 0
      let next := if next > stop then stop else next
      let region := ⟨major n, minor n, next - n⟩
      if isErrValue (registerOneRegion region) then throw (.panic "register error!")
      return region :: (← registerRegionsLoop stop turns next)
    else return []

/-- `register_chrdev_region`, which returns zero. -/
def registerChrdevRegion (turns : Nat) (start count : UInt32) : Kernel (List ChrdevRegion) :=
  registerRegionsLoop (start + count) turns start

/-! ### The regions -/

/-- The device numbers of a region. -/
def ChrdevRegion.devices (region : ChrdevRegion) : List Nat :=
  range' (region.major.toNat * 2 ^ 20 + region.baseminor.toNat) region.minorct.toNat

/-- The regions partition a range of device numbers, with one region for each major in it. -/
structure Partitions (start stop : Nat) (regions : List ChrdevRegion) : Prop where
  devices : regions.flatMap ChrdevRegion.devices = range' start (stop - start)
  ascending : (regions.map fun region => region.major.toNat).Pairwise (· < ·)
  majors : ∀ number, number ∈ regions.map (fun region => region.major.toNat) ↔
    ∃ dev, start ≤ dev ∧ dev < stop ∧ dev / 2 ^ 20 = number

theorem toNat_major (dev : UInt32) : (major dev).toNat = dev.toNat / 2 ^ 20 :=
  (UInt32.toNat_shiftRight ..).trans (shiftRight_eq_div_pow ..)

theorem toNat_minor (dev : UInt32) : (minor dev).toNat = dev.toNat % 2 ^ 20 :=
  (UInt32.toNat_and ..).trans (and_two_pow_sub_one_eq_mod _ 20)

/-- The first device number of the next major. -/
theorem toNat_nextMajor (n : UInt32) :
    (mkdev (major n + 1) 0).toNat = (n.toNat / 2 ^ 20 + 1) * 2 ^ 20 % 2 ^ 32 := by
  rw [mkdev, UInt32.or_zero, UInt32.toNat_shiftLeft, UInt32.toNat_add, toNat_major,
    Nat.shiftLeft_eq]
  show (n.toNat / 2 ^ 20 + 1) % 2 ^ 32 * 2 ^ 20 % 2 ^ 32 = _
  omega

variable {stop n : UInt32} {turns : Nat}

/-- A range that ends before the last major is registered. -/
theorem registerRegionsLoop_partitions (low : n < stop → stop.toNat ≤ 0xfff00000)
    (enough : stop.toNat - n.toNat < turns) :
    ∃ regions, registerRegionsLoop stop turns n = .ok regions ∧
      Partitions n.toNat stop.toNat regions := by
  induction turns generalizing n with
  | zero => cases enough
  | succ turns ih =>
    rw [registerRegionsLoop]
    by_cases more : n < stop
    · have before := lt_iff_toNat_lt.mp more
      have early := low more
      have following := toNat_nextMajor n
      have here := toNat_major n
      generalize nextEq :
        (if mkdev (major n + 1) 0 > stop then stop else mkdev (major n + 1) 0) = next
      have value : next.toNat = min ((n.toNat / 2 ^ 20 + 1) * 2 ^ 20) stop.toNat := by
        subst nextEq
        split_ifs with above
        · have := lt_iff_toNat_lt.mp above; omega
        · have := le_iff_toNat_le.mp (UInt32.not_lt.mp above); omega
      have size : (next - n).toNat = next.toNat - n.toNat :=
        UInt32.toNat_sub_of_le _ _ (le_iff_toNat_le.mpr (by omega))
      obtain ⟨rest, ran, devices, ascending, majors⟩ := ih (n := next) (fun _ => early) (by omega)
      refine ⟨⟨major n, minor n, next - n⟩ :: rest, ?_, ?_, ?_, ?_⟩
      · rw [if_pos more]
        dsimp only
        rw [nextEq, ran]
        rfl
      · have first : ChrdevRegion.devices ⟨major n, minor n, next - n⟩ =
            range' n.toNat (next.toNat - n.toNat) := by
          rw [ChrdevRegion.devices, here, toNat_minor, size, div_add_mod']
        have last : range' next.toNat (stop.toNat - next.toNat) =
            range' (n.toNat + 1 * (next.toNat - n.toNat)) (stop.toNat - next.toNat) := by
          congr 1
          omega
        rw [flatMap_cons, first, devices, last, range'_append]
        congr 1
        omega
      · rw [map_cons, pairwise_cons]
        refine ⟨fun number member => ?_, ascending⟩
        obtain ⟨dev, above, below, rfl⟩ := (majors number).mp member
        show (major n).toNat < _
        omega
      · intro number
        rw [map_cons, mem_cons, majors, here]
        constructor
        · rintro (rfl | ⟨dev, above, below, rfl⟩)
          · exact ⟨n.toNat, le_rfl, before, rfl⟩
          · exact ⟨dev, by omega, below, rfl⟩
        · rintro ⟨dev, above, below, rfl⟩
          by_cases first : dev < next.toNat
          · exact .inl (by omega)
          · exact .inr ⟨dev, Nat.not_lt.mp first, below, rfl⟩
    · have none : stop.toNat - n.toNat = 0 :=
        Nat.sub_eq_zero_of_le (le_iff_toNat_le.mp (UInt32.not_lt.mp more))
      refine ⟨[], if_neg more, ?_, .nil, fun number => ⟨nofun, ?_⟩⟩
      · rw [none]
        rfl
      · rintro ⟨dev, above, below, _⟩
        omega

/-- In the last major the loop does not end. -/
theorem registerRegionsLoop_endless (high : 0xfff00000 < stop.toNat) (more : n < stop) :
    registerRegionsLoop stop turns n = .error .endless := by
  induction turns generalizing n with
  | zero => rfl
  | succ turns ih =>
    have following := toNat_nextMajor n
    have below : ¬mkdev (major n + 1) 0 > stop := by
      refine UInt32.not_lt.mpr (le_iff_toNat_le.mpr ?_)
      omega
    rw [registerRegionsLoop, if_pos more]
    dsimp only
    rw [if_neg below, ih (lt_iff_toNat_lt.mpr (by omega))]
    rfl

/-- A range is registered major by major exactly if it ends before the last major. -/
theorem registerChrdevRegion_partitions_iff (start count : UInt32)
    (fits : start.toNat + count.toNat < 2 ^ 32) :
    (∃ turns regions, registerChrdevRegion turns start count = .ok regions ∧
      Partitions start.toNat (start.toNat + count.toNat) regions) ↔
      count = 0 ∨ start.toNat + count.toNat ≤ 0xfff00000 := by
  have stop : (start + count).toNat = start.toNat + count.toNat := by
    rw [UInt32.toNat_add, mod_eq_of_lt fits]
  constructor
  · rintro ⟨turns, regions, ran, _⟩
    by_contra neither
    obtain ⟨nonzero, high⟩ := not_or.mp neither
    have positive : 0 < count.toNat := pos_of_ne_zero fun zero => nonzero (UInt32.toNat_inj.mp zero)
    have more : start < start + count := lt_iff_toNat_lt.mpr (by omega)
    rw [registerChrdevRegion, registerRegionsLoop_endless (by omega) more] at ran
    cases ran
  · intro early
    have low : start < start + count → (start + count).toNat ≤ 0xfff00000 := by
      intro more
      rcases early with rfl | low
      · exact absurd more (by rw [UInt32.add_zero]; exact UInt32.lt_irrefl start)
      · exact stop ▸ low
    have done := registerRegionsLoop_partitions low (lt_succ_self _)
    rw [stop] at done
    exact ⟨_, done⟩

/-- A range on both sides of a major. -/
theorem registerChrdevRegion_partitions_iff_two :
    (0xffffe : UInt32).toNat + (4 : UInt32).toNat < 2 ^ 32 ∧
      ∃ turns regions, registerChrdevRegion turns 0xffffe 4 = .ok regions ∧
        Partitions (0xffffe : UInt32).toNat
          ((0xffffe : UInt32).toNat + (4 : UInt32).toNat) regions :=
  ⟨by decide, (registerChrdevRegion_partitions_iff 0xffffe 4 (by decide)).mpr (.inr (by decide))⟩

/-- One device number in the last major. -/
theorem registerChrdevRegion_last_major :
    (0xfff00000 : UInt32).toNat + (1 : UInt32).toNat < 2 ^ 32 ∧
      ¬∃ turns regions, registerChrdevRegion turns 0xfff00000 1 = .ok regions := by
  refine ⟨by decide, ?_⟩
  rintro ⟨turns, regions, ran⟩
  rw [registerChrdevRegion, registerRegionsLoop_endless (by decide) (by decide)] at ran
  cases ran

end Xlinux
