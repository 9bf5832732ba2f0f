/-
This file is about the mount of the root of `rootfs/rootfs.c`. `mount_block_root`
tries the file systems one after the other, as long as the mount fails with an
error that another file system may not give.
-/

import Xlinux.Fs.CharDev

namespace Xlinux

open List

/-! ### Mounting the root -/

/-- `EACCES`. -/
def eacces : Int := 13

/-- A file system to try, with what `init_mount` returns for it. Its name is not the empty string,
which ends the page of `get_fs_names`. -/
structure FsCandidate where
  name : List UInt8
  filled : name ≠ []
  result : Int

/-- `do_mount_root`. -/
def doMountRoot (candidate : FsCandidate) : Kernel Int :=
  if candidate.result ≠ 0 then .error (.panic "bad init mount /root") else .ok candidate.result

/-- The loop of `mount_block_root`, with the candidate that it mounts. -/
def mountBlockRoot (rootDev : UInt32) : List FsCandidate → Kernel FsCandidate
  | [] => throw (.panic ("VFS: Unable to mount root fs on unknown-block(" ++
      toString (major rootDev) ++ "," ++ toString (minor rootDev) ++ ")"))
  | candidate :: rest => do
    let err ← doMountRoot candidate
    if err = 0 then return candidate
    else if err = -eacces ∨ err = -einval then mountBlockRoot rootDev rest
    else throw (.panic "VFS: Unable to mount root fs")

/-- The first candidate that can be mounted is mounted exactly if no other one is tried before. -/
theorem mountBlockRoot_eq_ok_iff (rootDev : UInt32) {before after : List FsCandidate}
    {first : FsCandidate}
    (fail : ∀ candidate ∈ before, candidate.result = -eacces ∨ candidate.result = -einval)
    (mounts : first.result = 0) :
    mountBlockRoot rootDev (before ++ first :: after) = .ok first ↔ before = [] := by
  cases before with
  | nil =>
    refine iff_of_true ?_ rfl
    rw [nil_append, mountBlockRoot, doMountRoot, if_neg (not_not.mpr mounts), mounts]
    rfl
  | cons candidate rest =>
    have fails : candidate.result ≠ 0 := by
      rcases fail candidate mem_cons_self with access | invalid
      · exact access ▸ by decide
      · exact invalid ▸ by decide
    refine iff_of_false ?_ (cons_ne_nil candidate rest)
    rw [cons_append, mountBlockRoot, doMountRoot, if_pos fails]
    exact nofun

/-- The first of two file systems is mounted. -/
theorem mountBlockRoot_eq_ok_iff_first :
    mountBlockRoot 0xfe00000 [⟨[101], by decide, 0⟩, ⟨[102], by decide, -einval⟩] =
      .ok ⟨[101], by decide, 0⟩ :=
  (@mountBlockRoot_eq_ok_iff _ [] _ _ nofun rfl).mpr rfl

/-- The first of two file systems cannot be mounted, and the second one is not tried. -/
theorem mountBlockRoot_second :
    mountBlockRoot 0xfe00000 [⟨[102], by decide, -einval⟩, ⟨[101], by decide, 0⟩] =
      .error (.panic "bad init mount /root") :=
  rfl

end Xlinux
