/-
This file models `xarray/xarray.c` and the inline functions of
`include/xarray.h`. A node is known by its address, `0` being `NULL`. An entry is
a word; its two lowest bits tell a pointer from an internal entry, and the
address of a node is stored with the second of these bits set. What
`kmem_cache_alloc` returns next is a list of addresses, and the constructor of
the cache has cleared the nodes there.
-/

import Xlinux.Kernel
import Xlinux.Word

namespace Xlinux

/-! ### Nodes and states -/

/-- `struct xa_node`; the field `array` is not used. -/
structure XaNode where
  shift : Nat
  offset : Nat
  parent : UInt64
  slots : Fin 64 → UInt64

/-- The field of `struct xarray`, and the nodes by address. -/
structure XArray where
  xaHead : UInt64
  nodes : UInt64 → XaNode

/-- `struct xa_state` without its array. -/
structure XaState where
  xaIndex : UInt64
  xaShift : Nat
  xaOffset : Nat
  xaNode : UInt64

/-- An array, the state of an operation on it, and the nodes that will be allocated. -/
structure XaWorld where
  array : XArray
  xas : XaState
  free : List UInt64

/-- Code that works on an array and may stop the kernel. -/
abbrev XaM := StateT XaWorld Kernel

/-- `XA_CHUNK_SHIFT`, `XA_CHUNK_SIZE` and `XA_CHUNK_MASK`. -/
def xaChunkShift : Nat := 6

def xaChunkSize : UInt64 := (1 : UInt64) <<< 6

def xaChunkMask : UInt64 := xaChunkSize - 1

/-- `XAS_BOUNDS` and `XAS_RESTART`. -/
def xasBounds : UInt64 := 1

def xasRestart : UInt64 := 3

/-- `XA_ERROR`. -/
def xaError (errno : UInt64) : UInt64 := (errno <<< 2) ||| 2

/-- `XA_STATE`. -/
def xaStateOf (index : UInt64) : XaState := ⟨index, 0, 0, xasRestart⟩

/-- What the constructor `xa_node_ctor` makes of a node. -/
def clearedNode : XaNode := ⟨0, 0, 0, fun _ => 0⟩

/-! ### Words -/

/-- `xa_mk_internal`. -/
def xaMkInternal (v : UInt64) : UInt64 := (v <<< 2) ||| 2

/-- `xa_is_internal`. -/
def xaIsInternal (entry : UInt64) : Bool := entry &&& 3 = 2

/-- `xa_is_err`. -/
def xaIsErr (entry : UInt64) : Bool := xaIsInternal entry && entry ≥ xaMkInternal (0 - 4095)

/-- `xa_is_node`. -/
def xaIsNode (entry : UInt64) : Bool := xaIsInternal entry && entry > 4096

/-- `xa_is_zero`. -/
def xaIsZero (entry : UInt64) : Bool := entry = xaMkInternal 257

/-- `xa_to_node`. -/
def xaToNode (entry : UInt64) : UInt64 := entry - 2

/-- `xa_mk_node`. -/
def xaMkNode (node : UInt64) : UInt64 := node ||| 2

/-- `xas_error`: the number is not `0`. -/
def xasError (xas : XaState) : Bool := xaIsErr xas.xaNode

/-- `xas_invalid`. -/
def xasInvalid (xas : XaState) : Bool := xas.xaNode &&& 3 ≠ 0

/-- `xas_top`. -/
def xasTop (node : UInt64) : Bool := node ≤ xasRestart

/-! ### Memory -/

/-- Change the state of the operation. -/
def modifyXas (change : XaState → XaState) : XaM Unit :=
  modify fun world => { world with xas := change world.xas }

def readXaNode (ptr : UInt64) : XaM XaNode := fun world =>
  if ptr = 0 then .error .nullPointer else .ok (world.array.nodes ptr, world)

def modifyXaNode (ptr : UInt64) (change : XaNode → XaNode) : XaM Unit := fun world =>
  if ptr = 0 then .error .nullPointer
  else .ok ((), { world with array := { world.array with
      nodes := Function.update world.array.nodes ptr (change (world.array.nodes ptr)) } })

def readHead : XaM UInt64 := do
  return (← get).array.xaHead

/-- `xa_entry`. -/
def xaEntry (ptr : UInt64) (offset : Nat) : XaM UInt64 := do
  let node ← readXaNode ptr
  if inside : offset < 64 then return node.slots ⟨offset, inside⟩ else throw .bug

/-- A pointer to a slot: the head of the array, or one of the slots of a node. -/
inductive XaSlot
  | head
  | slot (node : UInt64) (offset : Nat)

/-- `node->slots[offset] = entry`. -/
def writeNodeSlot (ptr : UInt64) (offset : Nat) (entry : UInt64) : XaM Unit :=
  if inside : offset < 64 then
    modifyXaNode ptr fun node =>
      { node with slots := Function.update node.slots ⟨offset, inside⟩ entry }
  else throw .outOfBounds

/-- `*slot = entry`. -/
def writeSlot (slot : XaSlot) (entry : UInt64) : XaM Unit :=
  match slot with
  | .head => modify fun world => { world with array := { world.array with xaHead := entry } }
  | .slot ptr offset => writeNodeSlot ptr offset entry

/-- `kmem_cache_alloc(xa_node_cachep, gfp)`. -/
def allocXaNode : XaM UInt64 := fun world =>
  match world.free with
  | [] => .ok (0, world)
  | ptr :: rest => .ok (ptr, { world with
      array := { world.array with nodes := Function.update world.array.nodes ptr clearedNode }
      free := rest })

/-! ### Looking up -/

/-- `set_bounds`. -/
def setBounds : XaM UInt64 := do
  modifyXas fun xas => { xas with xaNode := xasBounds }
  return 0

/-- Whether `xas_start` finds that the index is not in the array. -/
def outOfBounds (world : XaWorld) : Bool :=
  if xaIsNode world.array.xaHead then
    let node := world.array.nodes (xaToNode world.array.xaHead)
    world.xas.xaIndex >>> UInt64.ofNat node.shift > xaChunkMask
  else world.xas.xaIndex ≠ 0

/-- `xas_start`. -/
def xasStart : XaM UInt64 := do
  let world ← get
  if !xasInvalid world.xas then throw (.panic "xas valid!")
  else if xasError world.xas then return 0
  else if outOfBounds world then setBounds
  else do
    modifyXas fun xas => { xas with xaNode := 0 }
    return world.array.xaHead

/-- `get_offset`. -/
def getOffset (index : UInt64) (node : XaNode) : Nat :=
  (index >>> UInt64.ofNat node.shift &&& xaChunkMask).toNat

/-- `xas_descend`. -/
def xasDescend (ptr : UInt64) : XaM UInt64 := do
  let world ← get
  let node ← readXaNode ptr
  let offset := getOffset world.xas.xaIndex node
  let entry ← xaEntry ptr offset
  modifyXas fun xas => { xas with xaNode := ptr, xaOffset := offset % 256 }
  return entry

/-- The loop of `xas_load`. -/
def xasLoadLoop : Nat → UInt64 → XaM UInt64
  | 0, _ => throw .endless
  | turns + 1, entry => do
    if xaIsNode entry then
      let world ← get
      let node ← readXaNode (xaToNode entry)
      if world.xas.xaShift > node.shift then return entry
      else
        let entry ← xasDescend (xaToNode entry)
        if node.shift = 0 then return entry else xasLoadLoop turns entry
    else return entry

/-- `xas_load`. -/
def xasLoad : XaM UInt64 := do
  xasLoadLoop maxTurns (← xasStart)

/-- `xa_load`. -/
def xaLoad (array : XArray) (index : UInt64) : Kernel UInt64 := do
  let (entry, _) ← xasLoad ⟨array, xaStateOf index, []⟩
  return if xaIsZero entry then 0 else entry

/-! ### Storing -/

/-- `max_index`. -/
def maxIndex (array : XArray) (entry : UInt64) : UInt64 :=
  if xaIsNode entry then
    (xaChunkSize <<< UInt64.ofNat (array.nodes (xaToNode entry)).shift) - 1
  else 0

/-- `xas_alloc`. -/
def xasAlloc (shift : Nat) : XaM UInt64 := do
  let world ← get
  if xasInvalid world.xas then return 0
  else do
    let node ← allocXaNode
    if node = 0 then do
      modifyXas fun xas => { xas with xaNode := xaError (ofCInt (-enomem)) }
      return 0
    else if shift > 64 then throw .bug
    else do
      modifyXaNode node fun fields => { fields with
        offset := if world.xas.xaNode ≠ 0 then world.xas.xaOffset else fields.offset
        shift := shift % 256
        parent := world.xas.xaNode }
      return node

/-- The loop of `xas_expand` for an empty array. -/
def xasExpandShift : Nat → Nat → XaM Nat
  | 0, _ => throw .endless
  | turns + 1, shift => do
    let world ← get
    if world.xas.xaIndex >>> UInt64.ofNat shift ≥ xaChunkSize then
      xasExpandShift turns (shift + xaChunkShift)
    else return shift

/-- The old head of an array gets a new node above it. -/
def moveHead (head node : UInt64) : XaM Unit :=
  if xaIsNode head then
    modifyXaNode (xaToNode head) fun fields => { fields with offset := 0, parent := node }
  else pure ()

/-- The loop of `xas_expand` for an array that is not empty. It returns the shift and the last
node, or `none` for `-ENOMEM`. -/
def xasExpandLoop : Nat → Nat → UInt64 → UInt64 → XaM (Option (Nat × UInt64))
  | 0, _, _, _ => throw .endless
  | turns + 1, shift, node, head => do
    let world ← get
    if world.xas.xaIndex > maxIndex world.array head then
      if shift > 64 then throw .bug
      else do
        let node ← xasAlloc shift
        if node = 0 then return none
        else do
          writeNodeSlot node 0 head
          moveHead head node
          writeSlot .head (xaMkNode node)
          xasExpandLoop turns (shift + xaChunkShift) node (xaMkNode node)
    else return some (shift, node)

/-- `xas_expand`; `none` stands for `-ENOMEM`. -/
def xasExpand (head : UInt64) : XaM (Option Nat) := do
  let world ← get
  if head = 0 then
    if world.xas.xaIndex = 0 then return some 0
    else return some ((← xasExpandShift maxTurns 0) + xaChunkShift)
  else do
    let node := if xaIsNode head then xaToNode head else 0
    let shift :=
      if xaIsNode head then (world.array.nodes (xaToNode head)).shift + xaChunkShift else 0
    modifyXas fun xas => { xas with xaNode := 0 }
    match ← xasExpandLoop maxTurns shift node head with
    | none => return none
    | some (shift, node) => do
      modifyXas fun xas => { xas with xaNode := node }
      return some shift

/-- The node that the loop of `xas_create` goes down to: a new one, or the one in the slot. There
is none when the allocation fails or the slot has another entry. -/
def xasCreateNode (shift : Nat) (entry : UInt64) (slot : XaSlot) : XaM (Option UInt64) :=
  if entry = 0 then do
    let node ← xasAlloc shift
    if node = 0 then return none
    else do
      writeSlot slot (xaMkNode node)
      return some node
  else if xaIsNode entry then return some (xaToNode entry)
  else return none

/-- The loop of `xas_create`, down to the slot of the index. -/
def xasCreateLoop : Nat → Nat → UInt64 → XaSlot → XaM UInt64
  | 0, _, _, _ => throw .endless
  | turns + 1, shift, entry, slot => do
    let world ← get
    if shift > world.xas.xaShift then
      match ← xasCreateNode (shift - xaChunkShift) entry slot with
      | none => return entry
      | some node => do
        let entry ← xasDescend node
        let world ← get
        xasCreateLoop turns (shift - xaChunkShift) entry (.slot node world.xas.xaOffset)
    else return entry

/-- `xas_create`. The last branch of the source is for `NULL`, which `xas_top` has caught. -/
def xasCreate (allowRoot : Bool) : XaM UInt64 := do
  let world ← get
  let node := world.xas.xaNode
  if xasTop node then do
    modifyXas fun xas => { xas with xaNode := 0 }
    match ← xasExpand world.array.xaHead with
    | none => return 0
    | some shift =>
      let shift := if shift = 0 && !allowRoot then xaChunkShift else shift
      xasCreateLoop maxTurns shift (← readHead) .head
  else if xasError world.xas then return 0
  else do
    let fields ← readXaNode node
    let entry ← xaEntry node world.xas.xaOffset
    xasCreateLoop maxTurns fields.shift entry (.slot node world.xas.xaOffset)

/-- The end of `xas_store`, after the slot has been found. -/
def xasSetSlot (first entry : UInt64) : XaM UInt64 := do
  let world ← get
  if xasInvalid world.xas then return first
  else if first = entry then return first
  else do
    let node := world.xas.xaNode
    writeSlot (if node ≠ 0 then .slot node world.xas.xaOffset else .head) entry
    return first

/-- `xas_store`. -/
def xasStore (entry : UInt64) : XaM UInt64 := do
  let first ←
    if entry ≠ 0 then xasCreate (!xaIsNode entry && !xaIsZero entry) else xasLoad
  xasSetSlot first entry

end Xlinux
