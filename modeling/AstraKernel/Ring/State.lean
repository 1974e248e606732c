import AstraKernel.Handle.State
import AstraKernel.Sync.Step

/-!
# The bulk rings

A ring has a producer and a consumer endpoint over a range of a shared area: a header and then its
elements. The endpoints of a notify ring report their positions to the kernel; the bytes of a
kernel-copy ring are copied by the kernel. Positions are free-running, and the capacity is a power
of two.

A ring is named by its slot, and an area by its number, where 0 is no area. Of an area there is what
a ring asks of it, and its bytes. Statistics that no function reads are left out.
-/

namespace Astra

open Function

abbrev kernelRingMax : ℕ := 65535
abbrev kernelRingHeaderSize : BitVec 32 := 64
abbrev kernelRingOffsetAlignment : BitVec 32 := 64
abbrev kernelRingElementSizeMin : BitVec 32 := 4
abbrev kernelRingCapacityMin : BitVec 32 := 2
abbrev kernelRingMagic : BitVec 32 := 0x4152494e
abbrev kernelRingAbiVersion : BitVec 16 := 1
abbrev kernelRingNotifyCorrupt : BitVec 32 := 1
abbrev kernelRingCreateKernelCopy : BitVec 32 := 1
abbrev astraBulkRingCreateFlagMask : BitVec 32 := kernelRingCreateKernelCopy
abbrev ringGenerationMask : ℕ := 0x00ffffff
abbrev ringLeafEntries : ℕ := 32
abbrev kernelAreaChildMax : ℕ := 65535
abbrev astraSyscallIoError : ℕ := 12

inductive KernelRingState
  | free | open | closing
  deriving DecidableEq, Repr

inductive KernelRingEndpoint
  | producer | consumer
  deriving DecidableEq, Repr

inductive KernelRingStatus
  | ok | wouldBlock | peerDead | closed | ioError | invalidArgument | invalidState | noSlot
  | overlap | corrupt
  deriving DecidableEq, Repr

inductive KernelAreaStatus
  | ok | invalidArgument | peerDead | outOfMemory | corrupt
  deriving DecidableEq, Repr

structure KernelRing where
  area : ℕ
  owner : ℕ
  generation : ℕ
  areaGeneration : ℕ
  offset : BitVec 32
  totalSize : BitVec 32
  elementSize : BitVec 32
  capacity : BitVec 32
  producerPosition : BitVec 32
  consumerPosition : BitVec 32
  producerTerminal : ℕ
  consumerTerminal : ℕ
  producerReferences : ℕ
  consumerReferences : ℕ
  state : KernelRingState
  childReleased : Bool
  flags : BitVec 32
  deriving DecidableEq, Repr

structure RingArea where
  live : Bool
  creator : ℕ
  generation : ℕ
  byteSize : BitVec 32
  childReferences : ℕ
  bytes : ℕ → BitVec 8

/-- The thread pool, the rings over it, and the areas they are in. -/
structure RingState where
  pool : Pool
  ring : ℕ → KernelRing
  ringDirectory : ℕ → Bool
  area : ℕ → RingArea
  ringBackedLimit : ℕ
  nextRingSlot : ℕ
  activeRings : ℕ
  closingRings : ℕ
  poolCorrupt : Bool

def producerWaiters (n : ℕ) : QueueRef := .object (2 * n)

def consumerWaiters (n : ℕ) : QueueRef := .object (2 * n + 1)

def RingState.setRing (s : RingState) (n : ℕ) (f : KernelRing → KernelRing) : RingState :=
  { s with ring := update s.ring n (f (s.ring n)) }

def RingState.setArea (s : RingState) (a : ℕ) (f : RingArea → RingArea) : RingState :=
  { s with area := update s.area a (f (s.area a)) }

def RingState.withPool (s : RingState) (p : Pool) : RingState :=
  { s with pool := p }

def RingState.corrupted (s : RingState) : RingState :=
  { s with poolCorrupt := true }

def RingState.initQueues (s : RingState) (n : ℕ) : RingState :=
  let waits := s.pool.waits.setQueue (producerWaiters n) fun _ => kernelThreadWaitQueueInit
  s.withPool { s.pool with
    waits := waits.setQueue (consumerWaiters n) fun _ => kernelThreadWaitQueueInit }

/-- What `reset_ring` leaves of a ring. -/
def freeRingRecord (generation : ℕ) : KernelRing where
  area := 0
  owner := 0
  generation := generation
  areaGeneration := 0
  offset := 0
  totalSize := 0
  elementSize := 0
  capacity := 0
  producerPosition := 0
  consumerPosition := 0
  producerTerminal := 0
  consumerTerminal := 0
  producerReferences := 0
  consumerReferences := 0
  state := .free
  childReleased := true
  flags := 0

def kernelRingPoolInit (p : Pool) (area : ℕ → RingArea) : RingState where
  pool := p
  ring _ := freeRingRecord 1
  ringDirectory _ := false
  area := area
  ringBackedLimit := 0
  nextRingSlot := 0
  activeRings := 0
  closingRings := 0
  poolCorrupt := false

def validRing (s : RingState) (n : ℕ) : Prop :=
  n < kernelRingMax ∧ s.ringDirectory (n / ringLeafEntries) = true ∧ (s.ring n).generation ≠ 0
    ∧ (s.ring n).generation ≤ ringGenerationMask
    ∧ (s.ring n).flags &&& ~~~astraBulkRingCreateFlagMask = 0 ∧ (s.ring n).state ≠ .free

instance (s : RingState) (n : ℕ) : Decidable (validRing s n) :=
  inferInstanceAs (Decidable (_ ∧ _))

def KernelRing.kernelCopy (r : KernelRing) : Bool :=
  r.flags &&& kernelRingCreateKernelCopy ≠ 0

def astraU32IsPowerOfTwo (value : BitVec 32) : Prop :=
  value ≠ 0 ∧ value &&& (value - 1) = 0

instance (value : BitVec 32) : Decidable (astraU32IsPowerOfTwo value) :=
  inferInstanceAs (Decidable (_ ∧ _))

/-- `ring_shape_valid`, and the total; the bytes are counted in 64 bits. -/
def ringShapeValid (kernelCopy : Bool) (areaSize offset elementSize capacity : BitVec 32) :
    Option (BitVec 32) :=
  if offset &&& (kernelRingOffsetAlignment - 1) ≠ 0
      ∨ (if kernelCopy then elementSize ≠ 1
        else elementSize < kernelRingElementSizeMin ∨ elementSize &&& 3 ≠ 0)
      ∨ capacity < kernelRingCapacityMin ∨ 0x80000000 ≤ capacity
      ∨ ¬ astraU32IsPowerOfTwo capacity then
    none
  else
    let bytes := kernelRingHeaderSize.toNat + elementSize.toNat * capacity.toNat
    if uint32Max < bytes ∨ areaSize < offset ∨ (areaSize - offset).toNat < bytes then none
    else some (BitVec.ofNat 32 bytes)

def ringUsed (r : KernelRing) : BitVec 32 :=
  r.producerPosition - r.consumerPosition

def rangesOverlap (first firstSize second secondSize : BitVec 32) : Prop :=
  first < second + secondSize ∧ second < first + firstSize

instance (first firstSize second secondSize : BitVec 32) :
    Decidable (rangesOverlap first firstSize second secondSize) :=
  inferInstanceAs (Decidable (_ ∧ _))

/-- `kernel_area_child_retain` of a valid area. -/
def kernelAreaChildRetain (s : RingState) (a : ℕ) : KernelAreaStatus × RingState :=
  if (s.area a).live = false then (.peerDead, s)
  else if (s.area a).childReferences = kernelAreaChildMax then (.corrupt, s)
  else (.ok, s.setArea a fun area => { area with childReferences := area.childReferences + 1 })

/-- `kernel_area_child_release` of a valid area, but for what becomes of an area that was kept by
its last child. -/
def kernelAreaChildRelease (s : RingState) (a : ℕ) : KernelAreaStatus × RingState :=
  if (s.area a).childReferences = 0 then (.invalidArgument, s)
  else (.ok, s.setArea a fun area => { area with childReferences := area.childReferences - 1 })

def rangeValid (area : RingArea) (offset size : BitVec 32) : Prop :=
  area.live = true ∧ offset ≤ area.byteSize ∧ size ≤ area.byteSize - offset

instance (area : RingArea) (offset size : BitVec 32) : Decidable (rangeValid area offset size) :=
  inferInstanceAs (Decidable (_ ∧ _))

/-- `kernel_area_write`. The pages of a write that are not there yet are committed in order:
`granted` is how many of its bytes are written before there is no memory. -/
def kernelAreaWrite (s : RingState) (a : ℕ) (offset : BitVec 32) (source : ℕ → BitVec 8)
    (size : BitVec 32) (granted : ℕ) : KernelAreaStatus × RingState :=
  if size = 0 ∨ ¬ rangeValid (s.area a) offset size then (.invalidArgument, s)
  else
    (if size.toNat ≤ granted then .ok else .outOfMemory, s.setArea a fun area => { area with
      bytes := fun i =>
        if offset.toNat ≤ i ∧ i < offset.toNat + min size.toNat granted then
          source (i - offset.toNat)
        else area.bytes i })

/-- `kernel_area_read`, and the bytes. -/
def kernelAreaRead (s : RingState) (a : ℕ) (offset size : BitVec 32) :
    KernelAreaStatus × List (BitVec 8) :=
  if size = 0 ∨ ¬ rangeValid (s.area a) offset size then (.invalidArgument, [])
  else (.ok, (List.range size.toNat).map fun i => (s.area a).bytes (offset.toNat + i))

end Astra
