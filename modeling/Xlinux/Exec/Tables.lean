/-
This file models `create_elf_tables` (`fs/binfmt_elf.c`), which puts the argument
count, the pointers to the strings that `kernel_execve` copied and the auxiliary
vector on the stack of a program, and proves that the program finds its arguments
there: the tables are written from the new stack pointer up, the lengths that
are measured lead from each string to the next one, and everything ends below
the strings.
-/

import Xlinux.Exec.Copy
import Xlinux.Exec.UserString

namespace Xlinux

open Bytes Kernel UInt64

/-! ### The model -/

/-- What the tables say about the program. -/
structure ElfInfo where
  loadAddr : UInt64
  ePhoff : UInt64
  ePhnum : UInt16
  interpLoadAddr : UInt64
  eEntry : UInt64
  secureexec : Bool

/-- What `create_elf_tables` changes: the memory of the user, the stack pointer, and where the
strings are. -/
structure ElfStack where
  bytes : Bytes.Memory
  p : UInt64
  argEnd : UInt64
  envStart : UInt64
  envEnd : UInt64

/-- The limit for addresses of users, `USER_DS`. -/
def userDs : UInt64 := taskSize

/-- `AT_VECTOR_SIZE`. -/
def atVectorSize : Nat := 2 * (20 + 1)

/-- The entries of the auxiliary vector: `AT_PAGESZ`, `AT_PHDR`, `AT_PHENT`, `AT_PHNUM`, `AT_BASE`,
`AT_FLAGS`, `AT_ENTRY`, `AT_SECURE`, `AT_RANDOM` and `AT_EXECFN`. -/
def newAuxEntries (info : ElfInfo) (uRandBytes exec : UInt64) : List (UInt64 × UInt64) :=
  [(6, pageSize), (3, info.loadAddr + info.ePhoff), (4, 56), (5, info.ePhnum.toUInt64),
    (7, info.interpLoadAddr), (8, 0), (9, info.eEntry), (23, if info.secureexec then 1 else 0),
    (25, uRandBytes), (31, exec)]

/-- `saved_auxv`: the entries, and zeros in the rest. -/
def savedAuxv (entries : List (UInt64 × UInt64)) : List UInt64 :=
  entries.flatMap (fun entry => [entry.1, entry.2]) ++
    List.replicate (atVectorSize - 2 * entries.length) 0

/-- The bytes of some words. -/
def words (values : List UInt64) : List UInt8 := values.flatMap fun value => bytesOf 8 value.toNat

/-- `put_user`. It is zero in any case. -/
def putUser (value ptr : UInt64) (memory : Bytes.Memory) : Bytes.Memory :=
  if accessOk userDs ptr 8 then store (bytesOf 8 value.toNat) ptr memory else memory

/-- `copy_to_user`: the number of bytes that were not copied. -/
def copyToUser (dest : UInt64) (bytes : List UInt8) (memory : Bytes.Memory) : Nat × Bytes.Memory :=
  if accessOk userDs dest (UInt64.ofNat bytes.length) then (0, store bytes dest memory)
  else (bytes.length, memory)

/-- The two loops that put pointers to strings on the stack; nothing if a length is bad. -/
def populate : Nat → Bytes.Memory → UInt64 → UInt64 →
    Kernel (Option (Bytes.Memory × UInt64 × UInt64))
  | 0, memory, sp, p => return some (memory, sp, p)
  | count + 1, memory, sp, p => do
    let memory := putUser p sp memory
    let len ← strnlenUser userDs memory p (UInt64.ofNat maxArgStrlen)
    if len = 0 ∨ len > UInt64.ofNat maxArgStrlen then return none
    populate count memory (sp + 8) (p + len)

/-- `create_elf_tables`, with what is in `k_rand_bytes`, `mm->arg_start` and what `find_vma` finds
in a variable without a value. -/
def createElfTables (uninitialized : UInt64) (kRandBytes : Vector UInt8 16) (info : ElfInfo)
    (mm : MmStruct) (argStart : UInt64) (bprm : LinuxBinprm) : Kernel (Int × ElfStack) := do
  let memory := bprm.pages.bytes
  let p := bprm.p - 16
  let uRandBytes := p
  let (left, memory) := copyToUser uRandBytes kRandBytes.toList memory
  if left ≠ 0 then return (-efault, ⟨memory, bprm.p, 0, 0, 0⟩)
  let entries := newAuxEntries info uRandBytes bprm.exec
  let eiIndex := 2 * entries.length + 2
  let sp := p - 8 * UInt64.ofNat eiIndex
  let items := (bprm.argc + 1) + (bprm.envc + 1) + 1
  let start := (sp - 8 * UInt64.ofNat items) &&& ~~~15
  let vma ← findExtendVma uninitialized mm start
  if vma = 0 then throw (.panic "find extend vma error!")
  let memory := putUser (UInt64.ofNat bprm.argc) start memory
  match ← populate bprm.argc memory (start + 8) argStart with
  | none => throw (.panic "bad len(%u)!")
  | some (memory, sp, argEnd) =>
    let memory := putUser 0 sp memory
    match ← populate bprm.envc memory (sp + 8) argEnd with
    | none => return (-einval, ⟨memory, start, argEnd, argEnd, argEnd⟩)
    | some (memory, sp, envEnd) =>
      let memory := putUser 0 sp memory
      let (left, memory) := copyToUser (sp + 8) (words ((savedAuxv entries).take eiIndex)) memory
      if left ≠ 0 then throw (.panic "copy to user error!")
      return (0, ⟨memory, start, argEnd, argEnd, envEnd⟩)

/-! ### Writing upwards -/

/-- The tables so far, from the stack pointer up to the random bytes and the strings. -/
structure Building (start first : UInt64) (random content written : List UInt8)
    (memory : Bytes.Memory) : Prop where
  table : Spells memory start written
  random : Spells memory (first - 16) random
  strings : Spells memory first content

section Building

variable {start first : UInt64} {random content written bytes : List UInt8} {memory : Bytes.Memory}

/-- More of the tables is written. -/
theorem Building.store (building : Building start first random content written memory)
    (below : start.toNat + written.length + bytes.length + 16 ≤ first.toNat)
    (sixteen : random.length = 16) (room : first.toNat + content.length < 2 ^ 63) :
    Building start first random content (written ++ bytes)
      (Bytes.store bytes (start + UInt64.ofNat written.length) memory) := by
  have next : (start + ofNat written.length).toNat = start.toNat + written.length :=
    toNat_add_ofNat (by omega)
  have randomAt : (first - 16).toNat = first.toNat - 16 :=
    toNat_sub_of_toNat_le (show 16 ≤ first.toNat by omega)
  have outside : ∀ addr : UInt64, addr.toNat < start.toNat + written.length ∨
      first.toNat - 16 ≤ addr.toNat →
      Bytes.store bytes (start + ofNat written.length) memory addr = memory addr := by
    intro addr apart
    refine store_outside (by omega) fun within => ?_
    have low := within.1
    have high := within.2
    omega
  refine ⟨spells_append.mpr ⟨?_, spells_store (by omega)⟩, ?_, ?_⟩
  · exact building.table.congr (by omega) fun addr inside => outside addr (.inl inside.2)
  · exact building.random.congr (by omega) fun addr inside => outside addr (.inr (by
      have low := inside.1
      omega))
  · exact building.strings.congr (by omega) fun addr inside => outside addr (.inr (by
      have low := inside.1
      omega))

theorem accessOk_of_le {addr size : UInt64} (inside : addr.toNat + size.toNat ≤ userDs.toNat) :
    accessOk userDs addr size = true := by
  rw [accessOk, Bool.and_eq_true, decide_eq_true_iff, decide_eq_true_iff, le_iff_toNat_le,
    le_iff_toNat_le, toNat_sub_of_toNat_le (by omega)]
  omega

theorem copyToUser_eq {dest : UInt64} (inside : dest.toNat + bytes.length ≤ userDs.toNat) :
    copyToUser dest bytes memory = (0, Bytes.store bytes dest memory) := by
  have limit : userDs.toNat < size := toNat_lt userDs
  refine if_pos (accessOk_of_le ?_)
  rwa [toNat_ofNat_of_lt' (by omega)]

theorem words_append (values others : List UInt64) :
    words (values ++ others) = words values ++ words others :=
  List.flatMap_append

theorem words_singleton (value : UInt64) : words [value] = bytesOf 8 value.toNat :=
  List.flatMap_singleton ..

theorem length_words (values : List UInt64) : (words values).length = 8 * values.length := by
  induction values with
  | nil => rfl
  | cons value values ih =>
    rw [← List.singleton_append, words_append, List.length_append, words_singleton, length_bytesOf,
      ih, List.length_append, List.length_singleton, mul_add]

/-- One more word of the tables is written. -/
theorem Building.putUser {values : List UInt64}
    (building : Building start first random content (words values) memory)
    (below : start.toNat + 8 * (values.length + 1) + 16 ≤ first.toNat)
    (sixteen : random.length = 16)
    (top : first.toNat + content.length ≤ userDs.toNat) (value : UInt64) :
    Building start first random content (words (values ++ [value]))
      (Xlinux.putUser value (start + UInt64.ofNat (8 * values.length)) memory) := by
  have limit : userDs.toNat < 2 ^ 63 := by decide
  have eight := length_bytesOf 8 value.toNat
  rw [Xlinux.putUser, if_pos (accessOk_of_le (show _ + 8 ≤ _ by
      rw [toNat_add_ofNat (by omega)]; omega)), words_append, words_singleton,
    ← length_words]
  exact building.store (by rw [length_words]; omega) sixteen (by omega)

/-- Where strings are that stand one after the other. -/
def positions : UInt64 → List CString → List UInt64
  | _, [] => []
  | p, arg :: args => p :: positions (p + UInt64.ofNat arg.terminated.length) args

theorem length_positions (p : UInt64) (args : List CString) :
    (positions p args).length = args.length := by
  induction args generalizing p with
  | nil => rfl
  | cons arg args ih => rw [positions, List.length_cons, ih, List.length_cons]

theorem joined_cons (arg : CString) (args : List CString) :
    joined (arg :: args) = arg.terminated ++ joined args := by
  rw [joined, List.map_cons, List.flatten_cons, joined]

theorem next_word (start value : UInt64) (values : List UInt64) :
    start + UInt64.ofNat (8 * values.length) + 8 =
      start + UInt64.ofNat (8 * (values ++ [value]).length) := by
  rw [List.length_append, List.length_singleton, Nat.mul_succ, ofNat_add, add_assoc]
  rfl

/-- The pointers to the strings are put on the stack. -/
theorem populate_spec {args : List CString} {passed more : List UInt8} {values : List UInt64}
    (building : Building start first random content (words values) memory)
    (split : content = passed ++ (joined args ++ more)) (sixteen : random.length = 16)
    (below : start.toNat + 8 * (values.length + args.length) + 16 ≤ first.toNat)
    (top : first.toNat + content.length ≤ userDs.toNat) (short : content.length ≤ 4088) :
    ∃ after, populate args.length memory (start + UInt64.ofNat (8 * values.length))
        (first + UInt64.ofNat passed.length) = .ok (some (after, start + UInt64.ofNat
          (8 * (values ++ positions (first + UInt64.ofNat passed.length) args).length),
        first + UInt64.ofNat (passed ++ joined args).length)) ∧
      Building start first random content
        (words (values ++ positions (first + UInt64.ofNat passed.length) args)) after := by
  induction args generalizing values passed memory with
  | nil =>
    rw [joined, List.map_nil, List.flatten_nil, positions, List.append_nil, List.append_nil]
    exact ⟨memory, rfl, building⟩
  | cons arg args ih =>
    rw [joined_cons, List.append_assoc] at split
    rw [List.length_cons] at below
    have built := building.putUser (by omega) sixteen top (first + ofNat passed.length)
    have limit : userDs.toNat = 0x4000000000 := rfl
    have lengths := congrArg List.length split
    rw [List.length_append, List.length_append, arg.length_terminated] at lengths
    have here := built.strings
    rw [split, spells_append, spells_append] at here
    have place : (first + ofNat passed.length).toNat = first.toNat + passed.length :=
      toNat_add_ofNat (by omega)
    have measured := (strnlenUser_eq_or here.2.1 arg.nonzero (by decide)
      (show _ < userDs.toNat by omega)).resolve_right fun long => long.1.not_gt
      (show arg.bytes.length < (ofNat maxArgStrlen).toNat by
        show _ < 131072
        omega)
    rw [← arg.length_terminated] at measured
    have good : ¬(ofNat arg.terminated.length = 0 ∨
        ofNat arg.terminated.length > ofNat maxArgStrlen) := by
      have value := toNat_ofNat_of_lt' (show arg.terminated.length < size by
        rw [size, arg.length_terminated]
        omega)
      have limited : (ofNat maxArgStrlen).toNat = 131072 := rfl
      rw [← UInt64.toNat_inj, gt_iff_lt, lt_iff_toNat_lt, value, arg.length_terminated]
      show ¬(_ = 0 ∨ _)
      omega
    have nextP : first + ofNat passed.length + ofNat arg.terminated.length =
        first + ofNat (passed ++ arg.terminated).length := by
      rw [List.length_append, ofNat_add, add_assoc]
    rw [List.length_cons, populate, measured, ok_bind, if_neg good,
      next_word _ (first + ofNat passed.length), positions, nextP, joined_cons,
      ← List.append_assoc, List.append_cons values _ (positions ..)]
    refine ih built (split.trans (List.append_assoc ..).symm) ?_
    rw [List.length_append, List.length_singleton]
    omega

end Building

/-! ### The whole stack -/

/-- The words from the stack pointer on: the number of arguments, the pointers to them, the pointers
to the environment and the auxiliary vector, each ended by zeros. -/
def tableWords (argvPtrs envpPtrs : List UInt64) (entries : List (UInt64 × UInt64)) : List UInt64 :=
  [UInt64.ofNat argvPtrs.length] ++ argvPtrs ++ [0] ++ envpPtrs ++ [0] ++
    entries.flatMap (fun entry => [entry.1, entry.2]) ++ [0, 0]

/-- The bytes that each string takes, where it stands. -/
def stringRegions (ptrs : List UInt64) (args : List CString) : List (Nat × Nat) :=
  List.zipWith (fun ptr arg => (ptr.toNat, arg.terminated.length)) ptrs args

/-- The stack with which a program starts. The pieces of the tables and the strings are listed with
their sizes, each one behind the one before it. -/
structure StartStack (info : ElfInfo) (random : List UInt8) (filename : CString)
    (argv envp : List CString) (memory : Bytes.Memory) (sp : UInt64) : Prop where
  aligned : sp.toNat % 16 = 0
  holds : ∃ (argvPtrs envpPtrs : List UInt64) (uRandBytes exec : UInt64),
    Spells memory sp (words (tableWords argvPtrs envpPtrs (newAuxEntries info uRandBytes exec))) ∧
    List.Forall₂ (fun ptr arg => Spells memory ptr (CString.terminated arg)) argvPtrs argv ∧
    List.Forall₂ (fun ptr arg => Spells memory ptr (CString.terminated arg)) envpPtrs envp ∧
    Spells memory uRandBytes random ∧ Spells memory exec filename.terminated ∧
    ([(sp.toNat, 8), (sp.toNat + 8, 8 * (argv.length + 1)),
      (sp.toNat + 8 * (argv.length + 2), 8 * (envp.length + 1)),
      (sp.toNat + 8 * (argv.length + envp.length + 3), 8 * 22),
      (uRandBytes.toNat, random.length)] ++
      stringRegions argvPtrs argv ++ stringRegions envpPtrs envp ++
      [(exec.toNat, filename.terminated.length)]).Pairwise fun one other => one.1 + one.2 ≤ other.1

section Start

variable {memory : Bytes.Memory} {p : UInt64} {args : List CString}

/-- The strings are at their positions. -/
theorem forall₂_positions (spells : Spells memory p (joined args)) :
    List.Forall₂ (fun ptr arg => Spells memory ptr (CString.terminated arg))
    (positions p args) args := by
  induction args generalizing p with
  | nil => exact .nil
  | cons arg args ih =>
    rw [joined_cons, spells_append] at spells
    exact .cons spells.1 (ih spells.2)

/-- Strings one after the other do not overlap. -/
theorem pairwise_stringRegions (room : p.toNat + (joined args).length < 2 ^ 64) :
    ((stringRegions (positions p args) args).Pairwise fun one other => one.1 + one.2 ≤ other.1) ∧
      ∀ region ∈ stringRegions (positions p args) args,
        p.toNat ≤ region.1 ∧ region.1 + region.2 ≤ p.toNat + (joined args).length := by
  induction args generalizing p with
  | nil => exact ⟨.nil, nofun⟩
  | cons arg args ih =>
    rw [joined_cons, List.length_append] at room ⊢
    have next : (p + ofNat arg.terminated.length).toNat = p.toNat + arg.terminated.length :=
      toNat_add_ofNat (by omega)
    obtain ⟨pairwise, inside⟩ := ih (show (p + ofNat arg.terminated.length).toNat +
      (joined args).length < 2 ^ 64 by omega)
    rw [next] at inside
    refine ⟨List.pairwise_cons.mpr ⟨fun region member => (inside region member).1, pairwise⟩, ?_⟩
    intro region member
    rcases List.mem_cons.mp member with rfl | later
    · exact ⟨le_refl _, by dsimp only; omega⟩
    · have bounds := inside region later
      omega

end Start

section Tables

variable {uninitialized : UInt64} {kRandBytes : Vector UInt8 16} {info : ElfInfo} {mm : MmStruct}
  {bprm : LinuxBinprm} {filename : CString} {argv envp : List CString}

/-- The stack pointer of the program. -/
def startPointer (bprm : LinuxBinprm) : UInt64 :=
  (bprm.p - 16 - 8 * 22 - 8 * UInt64.ofNat ((bprm.argc + 1) + (bprm.envc + 1) + 1)) &&& ~~~15

section

variable (stacked : OnStack bprm (stackContent filename argv envp))

include stacked

/-- The stack pointer leaves room for the tables. -/
theorem startPointer_spec (argc : bprm.argc = argv.length) (envc : bprm.envc = envp.length) :
    (startPointer bprm).toNat + 8 * (argv.length + envp.length + 3) + 8 * 22 + 16 ≤ bprm.p.toNat ∧
      (startPointer bprm).toNat % 16 = 0 := by
  have low := stacked.low
  have short := stacked.length_le
  rw [stackContent, List.length_append, List.length_append] at short
  have few : argv.length ≤ _ := length_le_joined
  have fewMore : envp.length ≤ _ := length_le_joined
  have value : (8 * ofNat ((bprm.argc + 1) + (bprm.envc + 1) + 1)).toNat =
      8 * (argv.length + envp.length + 3) := by
    rw [UInt64.toNat_mul, toNat_ofNat']
    show 8 * _ % _ = _
    omega
  have sixteen : (16 : UInt64).toNat = 16 := rfl
  have vector : (8 * 22 : UInt64).toNat = 176 := rfl
  have first := toNat_sub_of_toNat_le (show (16 : UInt64).toNat ≤ bprm.p.toNat by omega)
  have second := toNat_sub_of_toNat_le (show (8 * 22 : UInt64).toNat ≤ (bprm.p - 16).toNat by omega)
  have third :=
    toNat_sub_of_toNat_le (show (8 * ofNat ((bprm.argc + 1) + (bprm.envc + 1) + 1)).toNat ≤
    (bprm.p - 16 - 8 * 22).toNat by omega)
  have rounded : (startPointer bprm).toNat = _ := toNat_roundDown
    (show (16 : UInt64).toNat = 2 ^ 4 from rfl)
    (bprm.p - 16 - 8 * 22 - 8 * ofNat ((bprm.argc + 1) + (bprm.envc + 1) + 1))
  omega

/-- The tables are written whenever the stack reaches down to them. -/
theorem createElfTables_eq (argc : bprm.argc = argv.length) (envc : bprm.envc = envp.length) :
    ∃ final : ElfStack, final.p = startPointer bprm ∧
      Building final.p bprm.p kRandBytes.toList (stackContent filename argv envp)
        (words (tableWords (positions bprm.p argv)
          (positions (bprm.p + UInt64.ofNat (joined argv).length) envp)
          (newAuxEntries info (bprm.p - 16) bprm.exec))) final.bytes ∧
      ∀ uninitialized mm, createElfTables uninitialized kRandBytes info mm bprm.p bprm = (do
        let vma ← findExtendVma uninitialized mm final.p
        if vma = 0 then throw (.panic "find extend vma error!")
        return (0, final)) := by
  have level := stacked.level
  have short := stacked.length_le
  have sixteen : kRandBytes.toList.length = 16 := kRandBytes.size_toArray
  have limit : userDs.toNat = 0x4000000000 := rfl
  obtain ⟨_, -⟩ := startPointer_spec stacked argc envc
  have top : bprm.p.toNat + (stackContent filename argv envp).length ≤ userDs.toNat := by omega
  have randomAt : (bprm.p - 16).toNat = bprm.p.toNat - 16 :=
    toNat_sub_of_toNat_le (show 16 ≤ bprm.p.toNat by omega)
  have random : copyToUser (bprm.p - 16) kRandBytes.toList bprm.pages.bytes =
    (0, store kRandBytes.toList (bprm.p - 16) bprm.pages.bytes) := copyToUser_eq (by omega)
  have begun :
      Building (startPointer bprm) bprm.p kRandBytes.toList (stackContent filename argv envp)
      (words []) (store kRandBytes.toList (bprm.p - 16) bprm.pages.bytes) := by
    refine ⟨trivial, spells_store (by omega), stacked.spells.congr (by omega) fun addr inside => ?_⟩
    refine store_outside (by omega) fun within => ?_
    have above := inside.1
    have below := within.2
    omega
  have zero : ∀ word : UInt64, word + ofNat 0 = word := add_zero
  have counted := begun.putUser (by rw [List.length_nil]; omega) sixteen top (ofNat argv.length)
  -- The pointers to the arguments, and a zero.
  obtain ⟨_, argvRan, argvBuilt⟩ := populate_spec counted
    (show stackContent filename argv envp = [] ++ (joined argv ++ _) from rfl) sixteen (by
      rw [List.nil_append, List.length_singleton]
      omega) top short
  simp only [List.length_nil, List.nil_append, zero] at argvRan argvBuilt
  rw [List.length_singleton] at argvRan
  have argvEnded := argvBuilt.putUser (by simp [length_positions]; omega) sixteen top 0
  -- The same for the environment.
  obtain ⟨_, envpRan, envpBuilt⟩ := populate_spec argvEnded
    (show stackContent filename argv envp = joined argv ++ (joined envp ++ _) from rfl) sixteen (by
      simp [length_positions]
      omega) top short
  have envpEnded := envpBuilt.putUser (by simp [length_positions]; omega) sixteen top 0
  -- The auxiliary vector.
  have done :
      Building _ _ _ _
        (_ ++ words ((savedAuxv (newAuxEntries info (bprm.p - 16) bprm.exec)).take 22)) _ :=
    envpEnded.store (by simp [length_words, length_positions]; omega) sixteen (by omega)
  rw [← words_append, length_words] at done
  refine ⟨⟨?bytes, startPointer bprm, ?argEnd, ?envStart, ?envEnd⟩, rfl, ?built, ?ran⟩
  case ran =>
    intro uninitialized mm
    rw [createElfTables]
    rw [random]
    dsimp only
    have pointer :
        bprm.p - 16 - 8 * ofNat (2 * (newAuxEntries info (bprm.p - 16) bprm.exec).length + 2) -
      8 * ofNat (bprm.argc + 1 + (bprm.envc + 1) + 1) &&& ~~~15 = startPointer bprm := rfl
    rw [pointer]
    refine congrArg (findExtendVma uninitialized mm (startPointer bprm) >>= ·)
      (funext fun vma => ?_)
    by_cases none : vma = 0
    case neg =>
      rw [if_neg none, if_neg none, argc, envc,
        show startPointer bprm + 8 = startPointer bprm + ofNat (8 * 1) from rfl, argvRan,
        ok_bind]
      dsimp only
      rw [next_word _ 0, envpRan, ok_bind]
      dsimp only
      rw [next_word _ 0, show 2 * (newAuxEntries info (bprm.p - 16) bprm.exec).length + 2 =
        22 from rfl, copyToUser_eq (by
          rw [toNat_add_ofNat] <;> simp [length_words, length_positions] <;> omega)]
      rw [if_neg (not_not.mpr rfl)]
    case pos =>
      rw [if_pos none, if_pos none]
      rfl
  case built =>
    rw [tableWords, length_positions, List.append_assoc _ _ [0, 0]]
    exact done

/-- What the pieces of the stack are. -/
theorem Building.startStack {info : ElfInfo} {random : List UInt8} {memory : Bytes.Memory}
    {start : UInt64} (sixteen : random.length = 16)
    (exec : bprm.exec.toNat + filename.terminated.length = 0x3ffffffff8)
    (room : start.toNat + 8 * (argv.length + envp.length + 3) + 8 * 22 + 16 ≤ bprm.p.toNat)
    (aligned : start.toNat % 16 = 0)
    (building : Building start bprm.p random (stackContent filename argv envp)
      (words (tableWords (positions bprm.p argv)
        (positions (bprm.p + UInt64.ofNat (joined argv).length) envp)
        (newAuxEntries info (bprm.p - 16) bprm.exec))) memory) :
    StartStack info random filename argv envp memory start := by
  have level := stacked.level
  rw [stackContent, List.length_append, List.length_append] at level
  have strings := building.strings
  rw [stackContent, spells_append, spells_append] at strings
  have envpAt : (bprm.p + ofNat (joined argv).length).toNat =
      bprm.p.toNat + (joined argv).length := toNat_add_ofNat (by omega)
  have execAt : bprm.p + ofNat (joined argv).length + ofNat (joined envp).length =
      bprm.exec := by
    refine UInt64.toNat_inj.mp ?_
    rw [toNat_add_ofNat (by omega)]
    omega
  rw [execAt] at strings
  have randomAt : (bprm.p - 16).toNat = bprm.p.toNat - 16 :=
    toNat_sub_of_toNat_le (show 16 ≤ bprm.p.toNat by omega)
  have argvRegions :=
    pairwise_stringRegions (show bprm.p.toNat + (joined argv).length < 2 ^ 64 by omega)
  have envpRegions := pairwise_stringRegions (show (bprm.p + ofNat (joined argv).length).toNat +
    (joined envp).length < 2 ^ 64 by omega)
  refine ⟨aligned, positions bprm.p argv, positions (bprm.p + ofNat (joined argv).length) envp,
    bprm.p - 16, bprm.exec, building.table, ?_, ?_, building.random, strings.2.2, ?_⟩
  · exact forall₂_positions strings.1
  · exact forall₂_positions strings.2.1
  · rw [List.append_assoc, List.append_assoc, List.pairwise_append, List.pairwise_append,
      List.pairwise_append]
    refine ⟨?_, ⟨argvRegions.1, ⟨envpRegions.1, List.pairwise_singleton .., ?_⟩, ?_⟩, ?_⟩
    · simp only [List.pairwise_cons, List.mem_cons, List.not_mem_nil, forall_eq_or_imp,
        List.Pairwise.nil, and_true, false_implies, implies_true]
      omega
    · intro region member final last
      obtain rfl := List.mem_singleton.mp last
      have bounds := envpRegions.2 region member
      omega
    · intro region member other later
      have bounds := argvRegions.2 region member
      rcases List.mem_append.mp later with inEnvp | last
      · have more := envpRegions.2 other inEnvp
        omega
      · obtain rfl := List.mem_singleton.mp last
        omega
    · intro region member other later
      have high : bprm.p.toNat ≤ other.1 := by
        rcases List.mem_append.mp later with inArgv | more
        · exact (argvRegions.2 other inArgv).1
        · rcases List.mem_append.mp more with inEnvp | last
          · have bounds := envpRegions.2 other inEnvp
            omega
          · obtain rfl := List.mem_singleton.mp last
            omega
      refine le_trans ?_ high
      simp only [List.mem_cons, List.not_mem_nil, or_false] at member
      rcases member with rfl | rfl | rfl | rfl | rfl
      all_goals
        omega

end

end Tables

/-- The stack of a program. Strings that fit into one page are copied by `kernel_execve`; when
`create_elf_tables` has run, whatever is mapped besides the stack, the program finds its arguments,
its environment and the auxiliary vector. It does run if the stack reaches down to the stack
pointer. -/
theorem createElfTables_startStack (env : FaultEnv) (filename : CString)
    (argv envp : Option (List CString)) (pages : UserPages) (vma rlimCur : UInt64)
    (new : LinuxBinprm)
    (usable : Usable vma) (absent : pages.pgd 0xff = false) (free : env.Free)
    (made : allocBprm emptyMm pages vma rlimCur = .ok new)
    (fits : (stackContent filename (argv.getD []) (envp.getD [])).length ≤ 4088) :
    ∃ bprm, kernelExecveStrings env filename argv envp new = .ok (.ok bprm) ∧
      ∀ (uninitialized : UInt64) (kRandBytes : Vector UInt8 16) (info : ElfInfo) (mm : MmStruct),
        (∀ ret final, createElfTables uninitialized kRandBytes info mm bprm.p bprm =
          .ok (ret, final) →
          ret = 0 ∧
          StartStack info kRandBytes.toList filename (argv.getD []) (envp.getD []) final.bytes
            final.p) ∧
        ∀ area, area ≠ 0 → findExtendVma uninitialized mm (startPointer bprm) = .ok area →
          ∃ final, createElfTables uninitialized kRandBytes info mm bprm.p bprm =
            .ok (0, final) := by
  obtain ⟨stacked, -⟩ := onStack_allocBprm usable absent made
  obtain ⟨bprm, ran, after, argc, envc, exec⟩ := kernelExecveStrings_fits stacked free fits
  refine ⟨bprm, ran, fun uninitialized kRandBytes info mm => ?_⟩
  obtain ⟨room, aligned⟩ := startPointer_spec after argc envc
  obtain ⟨done, pointer, built, tables⟩ := createElfTables_eq after argc envc
  have start :=
    Building.startStack after kRandBytes.size_toArray exec (pointer ▸ room) (pointer ▸ aligned)
    built
  rw [tables]
  constructor
  · intro ret final returned
    obtain ⟨area, -, returned⟩ := bind_ok.mp returned
    split at returned
    · cases returned
    · cases returned
      exact ⟨rfl, start⟩
  · intro area nonzero found
    refine ⟨done, ?_⟩
    rw [pointer, found, ok_bind, if_neg nonzero]
    rfl

/-- A stack that reaches far enough down. -/
def largeStack : MmStruct where
  areas _ := ⟨0x3fffe00000, stackTopMax, 0, 0, vmStackFlags, 0, 0, 0⟩
  nodes _ := ⟨1, 0, 0, 0⟩
  mmRb := 64
  mmap := 64
  highestVmEnd := stackTopMax
  totalVm := 0
  dataVm := 0
  defFlags := 0

theorem createElfTables_startStack_init : ∃ new bprm final,
    allocBprm emptyMm noPages 64 0x800000 = .ok new ∧
    kernelExecveStrings freeMemory (repeated 5) (some [repeated 5, repeated 3])
      (some [repeated 9]) new = .ok (.ok bprm) ∧
    createElfTables 0 (Vector.replicate 16 7)
      ⟨0x10000, 64, 4, 0, 0x10100, false⟩ largeStack bprm.p bprm = .ok (0, final) ∧
    StartStack ⟨0x10000, 64, 4, 0, 0x10100, false⟩ (Vector.replicate 16 7).toList (repeated 5)
      [repeated 5, repeated 3] [repeated 9] final.bytes final.p := by
  have made : (allocBprm emptyMm noPages 64 0x800000).map (fun _ => ()) =
      .ok () := by decide +kernel
  obtain ⟨new, ran, -⟩ := exists_ok_of_map made
  obtain ⟨bprm, copied, tables⟩ := createElfTables_startStack freeMemory (repeated 5)
    (some [repeated 5, repeated 3]) (some [repeated 9]) noPages 64 0x800000 new (by decide) rfl
    ⟨rfl, rfl, rfl⟩ ran (by decide)
  obtain ⟨layout, runs⟩ :=
    tables 0 (Vector.replicate 16 7) ⟨0x10000, 64, 4, 0, 0x10100, false⟩ largeStack
  have pointer :
      (allocBprm emptyMm noPages 64 0x800000 >>= fun new => kernelExecveStrings freeMemory
      (repeated 5) (some [repeated 5, repeated 3]) (some [repeated 9]) new).map
      (Except.map startPointer) = .ok (.ok 0x3ffffffee0) := by decide +kernel
  rw [ran, ok_bind, copied] at pointer
  have same : startPointer bprm = 0x3ffffffee0 := Except.ok.inj (Except.ok.inj pointer)
  obtain ⟨final, done⟩ := runs 64 (by decide) (by rw [same]; decide +kernel)
  exact ⟨new, bprm, final, ran, copied, done, (layout 0 final done).2⟩

end Xlinux
