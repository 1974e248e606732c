import AstraKernel.Ring.Object

/-!
# Kernel-copy rings

The bytes of a write are staged past the producer's position and then committed; a reader peeks past
the consumer's position and then consumes. A copy that reaches the end of the buffer goes on at its
start.
-/

namespace Astra

open Function

/-- What the two accesses of a copy are granted, and the write back of the aliases before them. -/
structure CopyGrant where
  sync : Bool
  first : ℕ
  second : ℕ
  deriving DecidableEq, Repr

/-- What the write of a position is granted, and the write back of the aliases after it. -/
structure PublishGrant where
  position : ℕ
  sync : Bool
  deriving DecidableEq, Repr

def copyStatus : KernelAreaStatus → KernelRingStatus
  | .ok => .ok
  | .outOfMemory => .noSlot
  | _ => .corrupt

/-- The index in the buffer of a position, and how much of a copy of `length` bytes from there comes
before the buffer's end. -/
def copyIndex (r : KernelRing) (position : BitVec 32) : BitVec 32 :=
  position &&& (r.capacity - 1)

def copyFirst (r : KernelRing) (position length : BitVec 32) : BitVec 32 :=
  if length < r.capacity - copyIndex r position then length else r.capacity - copyIndex r position

/-- `copy_range` from the buffer; `sync` is the write back of the aliases before. -/
def copyRangeRead (s : RingState) (n : ℕ) (position length : BitVec 32) (sync : Bool) :
    KernelRingStatus × List (BitVec 8) :=
  let r := s.ring n
  let first := copyFirst r position length
  if sync = false then (.corrupt, [])
  else
    match kernelAreaRead s r.area (r.offset + kernelRingHeaderSize + copyIndex r position) first with
    | (.ok, bytes) =>
      if first = length then (.ok, bytes)
      else
        match kernelAreaRead s r.area (r.offset + kernelRingHeaderSize) (length - first) with
        | (.ok, rest) => (.ok, bytes ++ rest)
        | (status, _) => (copyStatus status, [])
    | (status, _) => (copyStatus status, [])

/-- `copy_range` into the buffer. -/
def copyRangeWrite (s : RingState) (n : ℕ) (position : BitVec 32) (source : ℕ → BitVec 8)
    (length : BitVec 32) (grant : CopyGrant) : KernelRingStatus × RingState :=
  let r := s.ring n
  let first := copyFirst r position length
  if grant.sync = false then (.corrupt, s)
  else
    match kernelAreaWrite s r.area (r.offset + kernelRingHeaderSize + copyIndex r position) source
        first grant.first with
    | (.ok, s) =>
      if first = length then (.ok, s)
      else
        match kernelAreaWrite s r.area (r.offset + kernelRingHeaderSize)
            (fun i => source (first.toNat + i)) (length - first) grant.second with
        | (status, s) => (copyStatus status, s)
    | (status, s) => (copyStatus status, s)

abbrev headerProducerPosition : BitVec 32 := 0x20
abbrev headerConsumerPosition : BitVec 32 := 0x30

def publishPosition (s : RingState) (n : ℕ) (offset position : BitVec 32) (grant : PublishGrant) :
    KernelRingStatus × RingState :=
  match kernelAreaWrite s (s.ring n).area ((s.ring n).offset + offset)
      (fun i => (wordBytes position).getD i 0) 4 grant.position with
  | (.ok, s) => (if grant.sync then .ok else .corrupt, s)
  | (_, s) => (.corrupt, s)

/-- `kernel_ring_copy_peek`, and the bytes; `sync` is the write back of the aliases before. -/
def kernelRingCopyPeek (s : RingState) (n : ℕ) (offset capacity : BitVec 32) (sync : Bool) :
    KernelRingStatus × List (BitVec 8) :=
  let r := s.ring n
  let used := ringUsed r
  if ¬ validRing s n ∨ capacity = 0 ∨ r.kernelCopy = false then (.invalidArgument, [])
  else if r.state = .closing then
    (if r.consumerTerminal = astraSyscallIoError then .ioError else .peerDead, [])
  else if r.consumerReferences = 0 then (.closed, [])
  else if r.capacity < used then (.corrupt, [])
  else if used < offset then (.invalidArgument, [])
  else if offset = used then
    if offset ≠ 0 then (.ok, [])
    else (if r.producerReferences = 0 then .peerDead else .wouldBlock, [])
  else
    copyRangeRead s n (r.consumerPosition + offset)
      (if used - offset < capacity then used - offset else capacity) sync

/-- `kernel_ring_copy_consume`, and the threads woken. -/
def kernelRingCopyConsume (s : RingState) (n : ℕ) (count : BitVec 32) (grant : PublishGrant) :
    KernelRingStatus × RingState × ℕ :=
  let r := s.ring n
  if ¬ validRing s n ∨ count = 0 ∨ r.kernelCopy = false ∨ r.state ≠ .open
      ∨ r.consumerReferences = 0 ∨ ringUsed r < count then
    (.invalidArgument, s, 0)
  else
    let position := r.consumerPosition + count
    match publishPosition s n headerConsumerPosition position grant with
    | (.ok, s) =>
      let s := s.setRing n fun r => { r with consumerPosition := position }
      if r.producerReferences ≠ 0 ∧ ringUsed (s.ring n) < r.capacity then
        match s.wakeQueue (producerWaiters n) astraSyscallOk with
        | (true, s, woken) => (.ok, s, woken)
        | (false, s, _) => (.corrupt, s, 0)
      else (.ok, s, 0)
    | (_, s) => (.corrupt, s, 0)

/-- `kernel_ring_copy_write_prepare`, and how many bytes there is room for. -/
def kernelRingCopyWritePrepare (s : RingState) (n : ℕ) (length : BitVec 32) (atomic : Bool) :
    KernelRingStatus × BitVec 32 :=
  let r := s.ring n
  let used := ringUsed r
  if ¬ validRing s n ∨ length = 0 ∨ r.kernelCopy = false then (.invalidArgument, 0)
  else if r.state = .closing then
    (if r.producerTerminal = astraSyscallIoError then .ioError else .peerDead, 0)
  else if r.producerReferences = 0 then (.closed, 0)
  else if r.consumerReferences = 0 then (.peerDead, 0)
  else if r.capacity < used then (.corrupt, 0)
  else
    let available := r.capacity - used
    if available = 0 ∨ (atomic = true ∧ available < length) then (.wouldBlock, 0)
    else (.ok, if available < length then available else length)

def kernelRingCopyWriteAt (s : RingState) (n : ℕ) (offset : BitVec 32) (source : ℕ → BitVec 8)
    (length : BitVec 32) (grant : CopyGrant) : KernelRingStatus × RingState :=
  let r := s.ring n
  let used := ringUsed r
  if ¬ validRing s n ∨ length = 0 ∨ r.kernelCopy = false then (.invalidArgument, s)
  else if r.capacity < used then (.corrupt, s)
  else if r.capacity - used < offset ∨ r.capacity - used - offset < length then
    (.invalidArgument, s)
  else copyRangeWrite s n (r.producerPosition + offset) source length grant

/-- `kernel_ring_copy_write_commit`, and the threads woken. -/
def kernelRingCopyWriteCommit (s : RingState) (n : ℕ) (count : BitVec 32) (grant : PublishGrant) :
    KernelRingStatus × RingState × ℕ :=
  let r := s.ring n
  let used := ringUsed r
  if ¬ validRing s n ∨ count = 0 ∨ r.kernelCopy = false ∨ r.state ≠ .open
      ∨ r.producerReferences = 0 ∨ r.consumerReferences = 0 then
    (.invalidArgument, s, 0)
  else if r.capacity < used then (.corrupt, s, 0)
  else if r.capacity - used < count then (.invalidArgument, s, 0)
  else
    let position := r.producerPosition + count
    match publishPosition s n headerProducerPosition position grant with
    | (.ok, s) =>
      let s := s.setRing n fun r => { r with producerPosition := position }
      match s.wakeQueue (consumerWaiters n) astraSyscallOk with
      | (true, s, woken) => (.ok, s, woken)
      | (false, s, _) => (.corrupt, s, 0)
    | (_, s) => (.corrupt, s, 0)

/-- `kernel_ring_copy_write`, the bytes written and the threads woken. -/
def kernelRingCopyWrite (s : RingState) (n : ℕ) (source : ℕ → BitVec 8) (length : BitVec 32)
    (atomic : Bool) (grant : CopyGrant) (publish : PublishGrant) :
    KernelRingStatus × RingState × BitVec 32 × ℕ :=
  match kernelRingCopyWritePrepare s n length atomic with
  | (.ok, written) =>
    match kernelRingCopyWriteAt s n 0 source written grant with
    | (.ok, s) =>
      match kernelRingCopyWriteCommit s n written publish with
      | (.ok, s, woken) => (.ok, s, written, woken)
      | (status, s, woken) => (status, s, 0, woken)
    | (status, s) => (status, s, 0, 0)
  | (status, _) => (status, s, 0, 0)

end Astra

/-!
## Runs of the rings

Calls on the rings, the thread pool under them and the areas they are in, one after another. A wait
probes its members in turn and blocks on all when none is ready, in one system call.
-/

namespace Astra

open Function

/-- A member of a wait set: an endpoint of a ring, or an object of another kind. -/
inductive RingMember
  | ring (n : ℕ) (endpoint : KernelRingEndpoint)
  | pending (spec : KernelThreadWaitSpec)
  | ready
  deriving DecidableEq, Repr

/-- How the probes of a wait set end: with the specs of all members, or at a member that answers. -/
inductive RingProbe
  | specs (specs : List KernelThreadWaitSpec)
  | answered (index : ℕ) (status : KernelRingStatus)
  deriving DecidableEq, Repr

/-- The second loop of `wait_handle_set`. `specs` holds those before, last first. -/
def ringProbes (s : RingState) : ℕ → List KernelThreadWaitSpec → List RingMember → RingProbe
  | _, specs, [] => .specs specs.reverse
  | index, specs, .ring n endpoint :: members =>
    match kernelRingPrepareWait s n endpoint with
    | (.wouldBlock, spec) => ringProbes s (index + 1) (spec :: specs) members
    | (status, _) => .answered index status
  | index, specs, .pending spec :: members => ringProbes s (index + 1) (spec :: specs) members
  | index, _, .ready :: _ => .answered index .ok

/-- `wait_handle_set`, from the resolved handles on: how the probes ended, and whether the thread is
blocked. -/
def waitRingSet (s : RingState) (t : Slot) (members : List RingMember) (multiple : Bool)
    (now deadline : ℕ) (rowMemory heapMemory : Bool) : RingProbe × Bool × RingState :=
  match ringProbes s 0 [] members with
  | .specs specs =>
    let r := waitBlock s.pool t specs multiple now deadline rowMemory heapMemory
    (.specs specs, r.1 = .ok, s.withPool r.2)
  | .answered index status =>
    (.answered index status, false,
      if multiple ∧ status ≠ .corrupt then s.withPool (setWaitOutputs s.pool t true index 0) else s)

inductive RingEvent
  | thread (op : ThreadOp)
  | create (owner area : ℕ) (offset elementSize capacity flags : BitVec 32) (grant : RingGrant)
  | abandon (n : ℕ)
  | retain (n : ℕ) (endpoint : KernelRingEndpoint)
  | release (n : ℕ) (endpoint : KernelRingEndpoint)
  | notify (n : ℕ) (endpoint : KernelRingEndpoint) (position flags : BitVec 32)
  | waitSet (t : Slot) (members : List RingMember) (multiple : Bool) (now deadline : ℕ)
      (rowMemory heapMemory : Bool)
  | consume (n : ℕ) (count : BitVec 32) (grant : PublishGrant)
  | writeAt (n : ℕ) (offset : BitVec 32) (source : ℕ → BitVec 8) (length : BitVec 32)
      (grant : CopyGrant)
  | writeCommit (n : ℕ) (count : BitVec 32) (grant : PublishGrant)
  | write (n : ℕ) (source : ℕ → BitVec 8) (length : BitVec 32) (atomic : Bool) (grant : CopyGrant)
      (publish : PublishGrant)
  | processDied (processId : ℕ)
  | areaOpened (a creator generation : ℕ) (byteSize : BitVec 32)
  | areaClosed (a : ℕ)
  | areaStored (a i : ℕ) (value : BitVec 8)

/-- A new area, which reads as zeros. -/
def newRingArea (creator generation : ℕ) (byteSize : BitVec 32) : RingArea where
  live := true
  creator := creator
  generation := generation
  byteSize := byteSize
  childReferences := 0
  bytes _ := 0

def RingState.step (s : RingState) : RingEvent → RingState
  | .thread op => s.withPool (s.pool.step op).2
  | .create owner area offset elementSize capacity flags grant =>
    (kernelRingCreateFlagged s owner area offset elementSize capacity flags grant).2.1
  | .abandon n => kernelRingAbandonUnpublished s n
  | .retain n endpoint => (kernelRingHandleRetain s n endpoint).2
  | .release n endpoint => kernelRingHandleRelease s n endpoint
  | .notify n endpoint position flags => (kernelRingNotify s n endpoint position flags).2
  | .waitSet t members multiple now deadline rowMemory heapMemory =>
    (waitRingSet s t members multiple now deadline rowMemory heapMemory).2.2
  | .consume n count grant => (kernelRingCopyConsume s n count grant).2.1
  | .writeAt n offset source length grant => (kernelRingCopyWriteAt s n offset source length grant).2
  | .writeCommit n count grant => (kernelRingCopyWriteCommit s n count grant).2.1
  | .write n source length atomic grant publish =>
    (kernelRingCopyWrite s n source length atomic grant publish).2.1
  | .processDied processId => (kernelRingProcessDied s processId).2.1
  | .areaOpened a creator generation byteSize =>
    s.setArea a fun _ => newRingArea creator generation byteSize
  | .areaClosed a => s.setArea a fun area => { area with live := false }
  | .areaStored a i value => s.setArea a fun area => { area with bytes := update area.bytes i value }

def RingState.run (s : RingState) : List RingEvent → RingState
  | [] => s
  | ev :: evs => (s.step ev).run evs

/-- Every event of the list satisfies `P` in the state it is met in. -/
def RingState.Along (P : RingState → RingEvent → Prop) (s : RingState) : List RingEvent → Prop
  | [] => True
  | ev :: evs => P s ev ∧ RingState.Along P (s.step ev) evs

end Astra
