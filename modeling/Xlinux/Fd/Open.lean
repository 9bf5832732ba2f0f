/-
This file models how a process opens a file: `build_open_flags` and
`do_sys_openat2` of `fs/open.c`, with `getname` and `do_filp_open` of `fs/namei.c`
up to the path walk. What the walk finds and whether there is memory is left to
the environment. `do_sys_openat2` overwrites what `build_open_flags` returns, so a
combination of flags that is rejected is looked up all the same, with open flags
that nobody wrote.
-/

import Xlinux.Exec.UserString
import Xlinux.Fd.Table
import Xlinux.Lib.Ensures

namespace Xlinux

open Bitmap Hoare Kernel

/-! ### The flags -/

def oCreat : UInt32 := 0x40
def oExcl : UInt32 := 0x80
def oTrunc : UInt32 := 0x200
def oAppend : UInt32 := 0x400
def oDsync : UInt32 := 0x1000
def oDirectory : UInt32 := 0x10000
def oNofollow : UInt32 := 0x20000
def oSyncBit : UInt32 := 0x100000
def oPath : UInt32 := 0x200000
def oTmpfileBit : UInt32 := 0x400000
def oTmpfile : UInt32 := oTmpfileBit ||| oDirectory
def oTmpfileMask : UInt32 := oTmpfile ||| oCreat
def oPathFlags : UInt32 := oDirectory ||| oNofollow ||| oPath ||| oCloexec
def fmodeNonotify : UInt32 := 0x4000000
def mayWrite : UInt32 := 2
def mayAppend : UInt32 := 8
def sIallugo : UInt64 := 0o7777
def sIfreg : UInt64 := 0o100000
def lookupFollow : UInt32 := 1
def lookupDirectory : UInt32 := 2
def lookupOpen : UInt32 := 0x100
def lookupCreate : UInt32 := 0x200
def lookupExcl : UInt32 := 0x400

/-- `VALID_OPEN_FLAGS`: the flags above and `O_WRONLY`, `O_RDWR`, `O_NOCTTY`, `O_NONBLOCK`,
`FASYNC`, `O_DIRECT`, `O_LARGEFILE` and `O_NOATIME`. -/
def validOpenFlags : UInt32 :=
  0x3 ||| oCreat ||| oExcl ||| 0x100 ||| oTrunc ||| oAppend ||| 0x800 ||| oSyncBit ||| oDsync |||
    0x2000 ||| 0x4000 ||| 0x8000 ||| oDirectory ||| oNofollow ||| 0x40000 ||| oCloexec ||| oPath |||
    oTmpfileBit

/-- The `RESOLVE_` flags and the `LOOKUP_` flags they set. -/
def resolveFlags : List (UInt64 × UInt32) :=
  [(0x01, 0x40000), (0x02, 0x20000), (0x04, 0x10000), (0x08, 0x80000), (0x10, 0x100000)]

/-- `VALID_RESOLVE_FLAGS`. -/
def validResolveFlags : UInt64 := 0x1f

/-- `struct open_how`. -/
structure OpenHow where
  flags : UInt64
  mode : UInt64
  resolve : UInt64
  deriving DecidableEq, Repr

/-- `struct open_flags`. -/
structure OpenFlags where
  openFlag : UInt32
  mode : UInt16
  accMode : UInt32
  intent : UInt32
  lookupFlags : UInt32
  deriving DecidableEq, Repr

/-- A flag, if it is wanted. -/
def flagIf (wanted : Bool) (flag : UInt32) : UInt32 := if wanted then flag else 0

/-- `ACC_MODE`. -/
def accModeOf (flags : UInt32) : UInt32 :=
  if flags &&& 3 = 0 then 4 else if flags &&& 3 = 1 then 2 else 6

/-- The end of `build_open_flags`, which nothing is rejected in. -/
def openFlagsOf (resolve : UInt64) (flags accMode : UInt32) (mode : UInt16) : OpenFlags :=
  let accMode := if flags &&& oPath ≠ 0 then 0 else accMode
  let flags := flags ||| flagIf (flags &&& oSyncBit ≠ 0) oDsync
  let excl := flags &&& oCreat ≠ 0 ∧ flags &&& oExcl ≠ 0
  { openFlag := flags
    mode := mode
    accMode := accMode ||| flagIf (flags &&& oTrunc ≠ 0) mayWrite |||
      flagIf (flags &&& oAppend ≠ 0) mayAppend
    intent := flagIf (flags &&& oPath = 0) lookupOpen |||
      flagIf (flags &&& oCreat ≠ 0) lookupCreate ||| flagIf excl lookupExcl
    lookupFlags := resolveFlags.foldl
      (fun lookup pair => lookup ||| flagIf (resolve &&& pair.1 ≠ 0) pair.2)
      (flagIf (flags &&& oDirectory ≠ 0) lookupDirectory |||
        flagIf (¬excl ∧ flags &&& oNofollow = 0) lookupFollow) }

/-- `build_open_flags`: what it returns, and `op` with what it wrote there. -/
def buildOpenFlags (how : OpenHow) (op : OpenFlags) : Int × OpenFlags :=
  let accMode := accModeOf how.flags.toUInt32
  let flags := how.flags.toUInt32 &&& ~~~(fmodeNonotify ||| oCloexec)
  let willCreate := flags &&& (oCreat ||| oTmpfileBit) ≠ 0
  let mode : UInt16 := if willCreate then (how.mode ||| sIfreg).toUInt16 else 0
  if flags &&& ~~~validOpenFlags ≠ 0 then (-einval, op)
  else if how.resolve &&& ~~~validResolveFlags ≠ 0 then (-einval, op)
  else if willCreate ∧ how.mode &&& ~~~sIallugo ≠ 0 then (-einval, op)
  else if ¬willCreate ∧ how.mode ≠ 0 then (-einval, op)
  else if flags &&& oTmpfileBit ≠ 0 ∧ flags &&& oTmpfileMask ≠ oTmpfile then
    (-einval, { op with mode })
  else if flags &&& oTmpfileBit ≠ 0 ∧ accMode &&& mayWrite = 0 then (-einval, { op with mode })
  else if flags &&& oPath ≠ 0 ∧ flags &&& ~~~oPathFlags ≠ 0 then (-einval, { op with mode })
  else (0, openFlagsOf how.resolve flags accMode mode)

/-! ### The call -/

/-- A path walk: where it begins, the path and the open flags. -/
structure PathWalk where
  dfd : UInt32
  name : List UInt8
  op : OpenFlags
  deriving DecidableEq, Repr

/-- The files of the current process with the pointers of `fdt->fd`, `0` for `NULL`, and the path
walks so far. -/
structure OpenWorld where
  files : FilesStruct
  fd : UInt32 → UInt64
  walks : List PathWalk

abbrev OpenM := StateT OpenWorld Kernel

/-- What the call finds: memory for the name, the bytes of user space from the name on,
`rlimit(RLIMIT_NOFILE)`, the memory of the new file, and what the path walk and `vfs_open`
return. -/
structure OpenEnv where
  nameMemory : Bool
  room : Nat
  nofile : UInt32
  emptyFile : Option UInt64
  walk : PathWalk → Kernel Int

/-- `EMBEDDED_NAME_MAX`. -/
def embeddedNameMax : Nat := 4096 - 8

/-- What `strncpy_from_user` returns for a string with some bytes of user space from it on. It reads
whole words. -/
def strncpyFromUser (room count : Nat) (name : CString) : Kernel Int :=
  if room = 0 then .ok (-14)
  else if name.bytes.length < min room count / 8 * 8 then .ok name.bytes.length
  else .error (.panic "do_strncpy_from_user: !")

/-- It is what the copy of the string from the memory of the user returns. -/
theorem strncpyFromUserMemory_map {user : Bytes.Memory} {seg src count : UInt64} {name : CString}
    (spells : Bytes.Spells user src name.terminated) (positive : 0 < count.toInt64)
    (below : src.toNat + name.bytes.length < seg.toNat) (memory : Bytes.Memory) (dst : UInt64) :
    (strncpyFromUserMemory seg user memory dst src count).map
      (fun copied => (copied.1.toNat : Int)) =
      strncpyFromUser (seg.toNat - src.toNat) count.toNat name := by
  have spec := strncpyFromUserMemory_spec spells name.nonzero positive below memory dst
  have small := seg.toNat_lt
  rw [Nat.mul_comm] at spec
  rw [strncpyFromUser, if_neg (by omega)]
  split_ifs at spec ⊢ with early
  · obtain ⟨after, copies, -⟩ := spec
    rw [copies, Except.map, UInt64.toNat_ofNat_of_lt' (show _ < 2 ^ 64 by omega)]
  · rw [spec]
    rfl

/-- `getname`; a name that fills the buffer does not come back from `strncpy_from_user`. -/
def getname (env : OpenEnv) (filename : CString) : OpenM (Except Int (List UInt8)) := do
  if env.nameMemory then
    let len ← strncpyFromUser env.room embeddedNameMax filename
    if len < 0 then throw (.panic "strncpy from user error!")
    else if len = 0 then return .error (-enoent)
    else return .ok filename.bytes
  else return .error (-enomem)

/-- `get_unused_fd_flags`. -/
def getUnusedFdFlags (env : OpenEnv) (flags : UInt32) : OpenM Int := do
  let (fd, files) ← allocFd (← get).files 0 env.nofile flags
  modify fun world => { world with files }
  return fd

/-- `do_filp_open`, with `path_openat`. -/
def doFilpOpen (env : OpenEnv) (walk : PathWalk) : OpenM (Except Int UInt64) := do
  match env.emptyFile with
  | none => return .error (-enomem)
  | some file =>
    if walk.op.openFlag &&& oTmpfileBit ≠ 0 then throw (.panic "__O_TMPFILE")
    else if walk.op.openFlag &&& oPath ≠ 0 then throw (.panic "O_PATH")
    else
      modify fun world => { world with walks := world.walks ++ [walk] }
      let error ← env.walk walk
      if error ≠ 0 then throw (.panic "path_openat: !")
      else return .ok file

/-- `fd_install`. -/
def fdInstall (fd : UInt32) (file : UInt64) : OpenM Unit := do
  if (← get).fd fd ≠ 0 then throw .bug
  else modify fun world => { world with fd := Function.update world.fd fd file }

/-- `do_sys_openat2`, with what was in the memory of its `op` before. -/
def doSysOpenat2 (env : OpenEnv) (op : OpenFlags) (dfd : UInt32) (filename : CString)
    (how : OpenHow) : OpenM Int := do
  let (_, op) := buildOpenFlags how op
  match ← getname env filename with
  | .error error => return error
  | .ok name =>
    let fd ← getUnusedFdFlags env how.flags.toUInt32
    if fd < 0 then return fd
    else
      match ← doFilpOpen env ⟨dfd, name, op⟩ with
      | .error error =>
        let files ← putUnusedFd (← get).files fd.toNat.toUInt32
        modify fun world => { world with files }
        return error
      | .ok file =>
        fdInstall fd.toNat.toUInt32 file
        return fd

/-! ### What it returns -/

/-- The same descriptors are free: the bits of the descriptors in use and the pointers are as
before, and the full bits and the hint agree with them. -/
structure SameDescriptors (before after : OpenWorld) : Prop where
  files : after.files.Consistent
  maxFds : after.files.fdt.maxFds = before.files.fdt.maxFds
  used : bit after.files.fdt.openFds = bit before.files.fdt.openFds
  pointers : after.fd = before.fd

/-- A free descriptor is marked as in use. -/
structure Reserved (before : OpenWorld) (fd : Int) (after : OpenWorld) : Prop where
  nonneg : 0 ≤ fd
  inside : fd.toNat < before.files.fdt.maxFds.toNat
  free : bit before.files.fdt.openFds fd.toNat = false
  files : after.files.Consistent
  maxFds : after.files.fdt.maxFds = before.files.fdt.maxFds
  used : bit after.files.fdt.openFds =
    fun n => decide (n = fd.toNat) || bit before.files.fdt.openFds n
  pointers : after.fd = before.fd

/-- The errors of `do_sys_openat2`. -/
def openErrors : List Int := [-enomem, -enoent, -emfile]

variable (env : OpenEnv) {world : OpenWorld}

theorem buildOpenFlags_fst (how : OpenHow) (op : OpenFlags) :
    (buildOpenFlags how op).1 = 0 ∨ (buildOpenFlags how op).1 = -einval := by
  unfold buildOpenFlags
  dsimp only
  split_ifs <;> simp only [true_or, or_true]

theorem getname_ensures (filename : CString) :
    Ensures (getname env filename) world fun named after =>
      after = world ∧ ∀ error, named = .error error → error ∈ openErrors := by
  rw [getname]
  split_ifs
  · refine ensures_lift fun len _ => ensures_guard fun _ => ?_
    split_ifs
    · exact ensures_pure ⟨rfl, by rintro _ ⟨⟩; decide⟩
    · exact ensures_pure ⟨rfl, nofun⟩
  · exact ensures_pure ⟨rfl, by rintro _ ⟨⟩; decide⟩

theorem getUnusedFdFlags_ensures (consistent : world.files.Consistent) (flags : UInt32) :
    Ensures (getUnusedFdFlags env flags) world fun fd after =>
      fd = -emfile ∧ after = world ∨ Reserved world fd after := by
  refine ensures_get (ensures_lift fun pair ran => ensures_modify (ensures_pure ?_))
  rcases consistent.of_allocFd ran with rfl | ⟨fd, returned, inside, free, after, maxFds, used⟩
  · exact .inl ⟨rfl, rfl⟩
  · refine .inr ⟨?_, ?_, ?_, after, maxFds, ?_, rfl⟩ <;> rw [returned]
    exacts [Int.natCast_nonneg fd, inside, free, used]

theorem doFilpOpen_ensures (walk : PathWalk) :
    Ensures (doFilpOpen env walk) world fun opened after =>
      after.files = world.files ∧ after.fd = world.fd ∧
        ∀ error, opened = .error error → error ∈ openErrors := by
  rw [doFilpOpen]
  split
  case h_1 => exact ensures_pure ⟨rfl, rfl, by rintro _ ⟨⟩; decide⟩
  case h_2 =>
    exact ensures_guard fun _ => ensures_guard fun _ => ensures_modify <| ensures_lift fun _ _ =>
      ensures_guard fun _ => ensures_pure ⟨rfl, rfl, nofun⟩

/-- A descriptor that is reserved and put back is free as before. -/
theorem Reserved.put {fd : Int} {reserved opened : OpenWorld} (taken : Reserved world fd reserved)
    (sameFiles : opened.files = reserved.files) (samePointers : opened.fd = reserved.fd)
    {files : FilesStruct} (ran : putUnusedFd opened.files fd.toNat.toUInt32 = .ok files) :
    SameDescriptors world { opened with files } := by
  have value : fd.toNat.toUInt32.toNat = fd.toNat :=
    UInt32.toNat_ofNat_of_lt' (taken.inside.trans (UInt32.toNat_lt _))
  have inside : fd.toNat.toUInt32 < reserved.files.fdt.maxFds := by
    rw [UInt32.lt_iff_toNat_lt, value, taken.maxFds]
    exact taken.inside
  obtain ⟨_, put, consistent, maxFds, used⟩ := taken.files.putUnusedFd inside
  rw [sameFiles, put] at ran
  cases ran
  refine ⟨consistent, maxFds.trans taken.maxFds, funext fun n => ?_,
    samePointers.trans taken.pointers⟩
  rw [used, taken.used, value]
  dsimp only
  by_cases here : n = fd.toNat
  · rw [here, taken.free, decide_eq_true rfl]
    rfl
  · rw [decide_eq_false here, Bool.not_false, Bool.true_and, Bool.false_or]

theorem doSysOpenat2_ensures (op : OpenFlags) (dfd : UInt32) (filename : CString) (how : OpenHow)
    (consistent : world.files.Consistent) :
    Ensures (doSysOpenat2 env op dfd filename how) world fun result after =>
      0 ≤ result ∨ result ∈ openErrors ∧ SameDescriptors world after := by
  have unchanged : SameDescriptors world world := ⟨consistent, rfl, rfl, rfl⟩
  refine (getname_ensures env filename).bind fun named _ ⟨same, errors⟩ => ?_
  subst same
  cases named with
  | error error => exact ensures_pure (.inr ⟨errors error rfl, unchanged⟩)
  | ok name =>
    refine (getUnusedFdFlags_ensures env consistent _).bind fun fd reserved taken => ?_
    rcases taken with ⟨failed, same⟩ | taken
    · subst failed same
      exact ensures_pure (.inr ⟨by decide, unchanged⟩)
    · rw [if_neg (Int.not_lt.mpr taken.nonneg)]
      refine (doFilpOpen_ensures env _).bind fun opened after ⟨files, pointers, errors⟩ => ?_
      cases opened with
      | error error =>
        exact ensures_get <| ensures_lift fun _ ran => ensures_modify <| ensures_pure <|
          .inr ⟨errors error rfl, taken.put files pointers ran⟩
      | ok file =>
        have installed : Ensures (fdInstall fd.toNat.toUInt32 file) after fun _ _ => True :=
          fun _ _ _ => trivial
        exact installed.bind fun _ _ _ => ensures_pure (.inl taken.nonneg)

/-- `do_sys_openat2` returns the error of `build_open_flags` without a path walk exactly when there
is no such error; and whenever it returns an error, the same descriptors are free as before. -/
theorem doSysOpenat2_rejects_iff (env : OpenEnv) (op : OpenFlags) (dfd : UInt32)
    (filename : CString) (how : OpenHow) (world : OpenWorld) (consistent : world.files.Consistent) :
    (((buildOpenFlags how op).1 < 0 → ∃ after,
        doSysOpenat2 env op dfd filename how world = .ok ((buildOpenFlags how op).1, after) ∧
          after.walks = world.walks) ↔ (buildOpenFlags how op).1 = 0) ∧
      ∀ result after, doSysOpenat2 env op dfd filename how world = .ok (result, after) →
        result < 0 → SameDescriptors world after := by
  have ensured := doSysOpenat2_ensures env op dfd filename how consistent
  refine ⟨⟨fun rejects => ?_, fun accepted negative => absurd accepted negative.ne⟩,
    fun result after ran negative => ?_⟩
  · refine (buildOpenFlags_fst how op).resolve_right fun rejected => ?_
    rw [rejected] at rejects
    obtain ⟨after, ran, -⟩ := rejects (by decide)
    rcases ensured _ _ ran with nonneg | ⟨member, -⟩
    · exact absurd nonneg (by decide)
    · exact absurd member (by decide)
  · exact ((ensured result after ran).resolve_left (Int.not_le.mpr negative)).2

/-- The file cannot be allocated: the descriptor is free again. -/
theorem doSysOpenat2_rejects_iff_enomem :
    (buildOpenFlags ⟨0, 0, 0⟩ ⟨2, 7, 4, 1, 9⟩).1 = 0 ∧ ∃ after,
      doSysOpenat2 ⟨true, 4096, 64, none, fun _ => .ok 0⟩ ⟨2, 7, 4, 1, 9⟩ 0 ⟨[0x61], by simp⟩
        ⟨0, 0, 0⟩ ⟨emptyFiles 64, fun _ => 0, []⟩ = .ok (-enomem, after) ∧
      SameDescriptors ⟨emptyFiles 64, fun _ => 0, []⟩ after := by
  have ran : (doSysOpenat2 ⟨true, 4096, 64, none, fun _ => .ok 0⟩ ⟨2, 7, 4, 1, 9⟩ 0
      ⟨[0x61], by simp⟩ ⟨0, 0, 0⟩ ⟨emptyFiles 64, fun _ => 0, []⟩).map Prod.fst =
        .ok (-enomem) := by
    decide +kernel
  obtain ⟨⟨_, after⟩, returned, rfl⟩ := exists_ok_of_map ran
  have keeps := doSysOpenat2_rejects_iff ⟨true, 4096, 64, none, fun _ => .ok 0⟩ ⟨2, 7, 4, 1, 9⟩ 0
    ⟨[0x61], by simp⟩ ⟨0, 0, 0⟩ ⟨emptyFiles 64, fun _ => 0, []⟩ (good_emptyFiles (by decide)).files
  exact ⟨by decide +kernel, after, returned, keeps.2 _ after returned (by decide)⟩

/-- A mode without `O_CREAT` is rejected, but the file is looked up with the open flags that were in
memory, and opened. -/
theorem doSysOpenat2_mode :
    (buildOpenFlags ⟨0, 0o644, 0⟩ ⟨2, 7, 4, 1, 9⟩).1 = -einval ∧
      (doSysOpenat2 ⟨true, 4096, 64, some 0x1000, fun _ => .ok 0⟩ ⟨2, 7, 4, 1, 9⟩ 0
        ⟨[0x61], by simp⟩ ⟨0, 0o644, 0⟩ ⟨emptyFiles 64, fun _ => 0, []⟩).map
        (fun pair => (pair.1, pair.2.walks)) = .ok (0, [⟨0, [0x61], ⟨2, 7, 4, 1, 9⟩⟩]) := by
  decide +kernel

end Xlinux
