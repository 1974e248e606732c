import AstraKernel.Ring.State

/-!
# The endpoints of a ring

A ring is open while each endpoint has references, and half open after the last reference of one has
gone. One that reports a position that cannot be closes the ring, and the waiters of both are woken.
-/

namespace Astra

open Function

/-- What the allocator and the area grant a new ring: the attempt, the frames of a leaf if it takes a
new one, the unit it is accounted as, the aliases' writes back before and after the header is
written, and how many of the header's bytes are written. -/
structure RingGrant where
  attempt : Bool
  leaf : Bool
  unit : Bool
  syncBefore : Bool
  header : ℕ
  syncAfter : Bool
  deriving DecidableEq, Repr

/-- The entries of a new leaf. -/
def RingState.addLeaf (s : RingState) (leafIndex : ℕ) : RingState :=
  let inLeaf (n : ℕ) : Bool := n < kernelRingMax ∧ n / ringLeafEntries = leafIndex
  { s with
    ring := fun n => if inLeaf n then freeRingRecord 1 else s.ring n
    ringDirectory := update s.ringDirectory leafIndex true
    ringBackedLimit := max s.ringBackedLimit (min ((leafIndex + 1) * ringLeafEntries) kernelRingMax)
    pool := { s.pool with waits := { s.pool.waits with
      queue := fun q =>
        match q with
        | .object m => if inLeaf (m / 2) then kernelThreadWaitQueueInit else s.pool.waits.queue q
        | _ => s.pool.waits.queue q } } }

/-- `ensure_ring_leaf`; `memory` is whether the frames of a new leaf are granted. -/
def ensureRingLeaf (s : RingState) (slot : ℕ) (memory : Bool) : Bool × RingState :=
  let leafIndex := slot / ringLeafEntries
  if s.ringDirectory leafIndex then (true, s)
  else if memory then (true, s.addLeaf leafIndex)
  else (false, s)

/-- The search of `claim_ring`, from `offset` past `next_ring_slot` on. -/
def claimRingSlot (memory : Bool) : ℕ → RingState → ℕ → Option ℕ × RingState
  | 0, s, _ => (none, s)
  | fuel + 1, s, offset =>
    let slot := s.nextRingSlot + offset
    let slot := if kernelRingMax ≤ slot then slot - kernelRingMax else slot
    match ensureRingLeaf s slot memory with
    | (false, s) => (none, s)
    | (true, s) =>
      if (s.ring slot).state ≠ .free then claimRingSlot memory fuel s (offset + 1)
      else (some slot, s)

/-- `claim_ring`, and the slot. -/
def claimRing (s : RingState) (grant : RingGrant) : KernelRingStatus × RingState × Option ℕ :=
  if grant.attempt = false then (.noSlot, s, none)
  else
    match claimRingSlot grant.leaf kernelRingMax s 0 with
    | (none, s) => (.noSlot, s, none)
    | (some slot, s) =>
      if grant.unit = false then (.corrupt, s, none)
      else
        let next := if slot + 1 = kernelRingMax then 0 else slot + 1
        (.ok, { s with nextRingSlot := next }, some slot)

def freeRing (s : RingState) (n : ℕ) : RingState :=
  let s := (s.setRing n fun r => freeRingRecord r.generation).initQueues n
  if n < s.nextRingSlot then { s with nextRingSlot := n } else s

def releaseChild (s : RingState) (n : ℕ) : KernelRingStatus × RingState :=
  if (s.ring n).childReleased then (.ok, s)
  else if (s.ring n).area = 0 then (.corrupt, s)
  else
    match kernelAreaChildRelease s (s.ring n).area with
    | (.ok, s) => (.ok, s.setRing n fun r => { r with childReleased := true })
    | (_, s) => (.corrupt, s)

def maybeFree (s : RingState) (n : ℕ) : RingState :=
  if ¬ validRing s n ∨ (s.ring n).producerReferences ≠ 0 ∨ (s.ring n).consumerReferences ≠ 0 then s
  else if kernelThreadWaitQueueCount s.pool (producerWaiters n) ≠ 0
      ∨ kernelThreadWaitQueueCount s.pool (consumerWaiters n) ≠ 0 then
    s.corrupted
  else
    match releaseChild s n with
    | (.ok, s) =>
      if s.activeRings = 0 then s.corrupted
      else if (s.ring n).state = .closing ∧ s.closingRings = 0 then s.corrupted
      else
        let closing := if (s.ring n).state = .closing then s.closingRings - 1 else s.closingRings
        freeRing { s with closingRings := closing, activeRings := s.activeRings - 1 } n
    | (_, s) => s.corrupted

/-- `wake_queue`, whether it worked and how many it woke. -/
def RingState.wakeQueue (s : RingState) (queue : QueueRef) (result : ℕ) : Bool × RingState × ℕ :=
  match kernelThreadWakeAll s.pool queue result with
  | ((.ok, p), woken) => (true, s.withPool p, woken)
  | ((_, p), _) => (false, s.withPool p, 0)

/-- Two calls of `wake_queue`, the second when the first has worked. -/
def RingState.wakeQueues (s : RingState) (queue queue' : QueueRef) (result result' : ℕ) :
    Bool × RingState × ℕ :=
  match s.wakeQueue queue result with
  | (true, s, woken) =>
    match s.wakeQueue queue' result' with
    | (ok, s, woken') => (ok, s, woken + woken')
  | (false, s, woken) => (false, s, woken)

/-- `fail_ring`, and the threads woken. -/
def failRing (s : RingState) (n terminal : ℕ) : KernelRingStatus × RingState × ℕ :=
  if ¬ validRing s n then (.invalidArgument, s, 0)
  else if (s.ring n).state = .closing then (.ok, s, 0)
  else
    let s := s.setRing n fun r => { r with
      state := .closing
      producerTerminal := terminal
      consumerTerminal := terminal }
    let s := { s with closingRings := s.closingRings + 1 }
    match s.wakeQueues (producerWaiters n) (consumerWaiters n) terminal terminal with
    | (true, s, woken) => (.ok, maybeFree s n, woken)
    | (false, s, _) => (.corrupt, s.corrupted, 0)

/-- Big-endian, as the kernel's words are. -/
def wordBytes (value : BitVec 32) : List (BitVec 8) :=
  [value.extractLsb' 24 8, value.extractLsb' 16 8, value.extractLsb' 8 8, value.extractLsb' 0 8]

/-- The `AstraBulkRingHeader` of a new ring. -/
def ringHeader (r : KernelRing) : List (BitVec 8) :=
  wordBytes kernelRingMagic ++ wordBytes (kernelRingAbiVersion ++ kernelRingHeaderSize.setWidth 16)
    ++ wordBytes r.flags ++ wordBytes r.elementSize ++ wordBytes r.capacity
    ++ wordBytes kernelRingHeaderSize ++ wordBytes r.totalSize
    ++ wordBytes (BitVec.ofNat 32 r.generation) ++ wordBytes r.producerPosition
    ++ List.replicate 12 0 ++ wordBytes r.consumerPosition ++ List.replicate 12 0

/-- The ring that `kernel_ring_create_flagged` fills its slot with. -/
def newRing (generation owner area areaGeneration : ℕ)
    (offset totalSize elementSize capacity flags : BitVec 32) : KernelRing where
  area := area
  owner := owner
  generation := generation
  areaGeneration := areaGeneration
  offset := offset
  totalSize := totalSize
  elementSize := elementSize
  capacity := capacity
  producerPosition := 0
  consumerPosition := 0
  producerTerminal := astraSyscallOk
  consumerTerminal := astraSyscallOk
  producerReferences := 1
  consumerReferences := 1
  state := .open
  childReleased := false
  flags := flags

/-- The end of `kernel_ring_create_flagged`: the header is written, or the ring is taken back. -/
def publishRing (s : RingState) (n : ℕ) (grant : RingGrant) : KernelRingStatus × RingState :=
  let written := kernelAreaWrite s (s.ring n).area (s.ring n).offset
    (fun i => (ringHeader (s.ring n)).getD i 0) kernelRingHeaderSize grant.header
  let s := if grant.syncBefore then written.2 else s
  if grant.syncBefore = false ∨ written.1 ≠ .ok ∨ grant.syncAfter = false then
    let s := s.setRing n fun r => { r with producerReferences := 0, consumerReferences := 0 }
    match releaseChild s n with
    | (.ok, s) => (.corrupt, freeRing s n)
    | (_, s) => (.corrupt, freeRing s.corrupted n)
  else (.ok, { s with activeRings := s.activeRings + 1 })

/-- `kernel_ring_create_flagged`, and the ring. -/
def kernelRingCreateFlagged (s : RingState) (owner area : ℕ)
    (offset elementSize capacity flags : BitVec 32) (grant : RingGrant) :
    KernelRingStatus × RingState × Option ℕ :=
  if owner = 0 ∨ area = 0 ∨ (s.area area).live = false
      ∨ flags &&& ~~~astraBulkRingCreateFlagMask ≠ 0 then
    (.invalidArgument, s, none)
  else
    match ringShapeValid (flags &&& kernelRingCreateKernelCopy ≠ 0) (s.area area).byteSize offset
        elementSize capacity with
    | none => (.invalidArgument, s, none)
    | some totalSize =>
      if ∃ slot ∈ List.range s.ringBackedLimit, (s.ring slot).state ≠ .free
          ∧ (s.ring slot).area = area
          ∧ rangesOverlap offset totalSize (s.ring slot).offset (s.ring slot).totalSize then
        (.overlap, s, none)
      else
        match claimRing s grant with
        | (.ok, s, some n) =>
          if (s.ring n).state ≠ .free then (.corrupt, s.corrupted, none)
          else
            match kernelAreaChildRetain s area with
            | (.ok, s) =>
              let generation := kernelGenerationNextMasked (s.ring n).generation ringGenerationMask
              let s := (s.setRing n fun _ => newRing generation owner area
                (s.area area).generation offset totalSize elementSize capacity flags).initQueues n
              let r := publishRing s n grant
              (r.1, r.2, if r.1 = .ok then some n else none)
            | (_, s) => (.peerDead, freeRing s n, none)
        | (.noSlot, s, _) => (.noSlot, s, none)
        | (_, s, _) => (.corrupt, s.corrupted, none)

def kernelRingAbandonUnpublished (s : RingState) (n : ℕ) : RingState :=
  if ¬ validRing s n ∨ (s.ring n).state ≠ .open ∨ (s.ring n).producerReferences ≠ 1
      ∨ (s.ring n).consumerReferences ≠ 1
      ∨ kernelThreadWaitQueueCount s.pool (producerWaiters n) ≠ 0
      ∨ kernelThreadWaitQueueCount s.pool (consumerWaiters n) ≠ 0 then
    s.corrupted
  else
    maybeFree (s.setRing n fun r => { r with producerReferences := 0, consumerReferences := 0 }) n

def KernelRing.references (r : KernelRing) : KernelRingEndpoint → ℕ
  | .producer => r.producerReferences
  | .consumer => r.consumerReferences

def KernelRing.setReferences (r : KernelRing) (references : ℕ) : KernelRingEndpoint → KernelRing
  | .producer => { r with producerReferences := references }
  | .consumer => { r with consumerReferences := references }

def kernelRingHandleRetain (s : RingState) (n : ℕ) (endpoint : KernelRingEndpoint) :
    Bool × RingState :=
  if ¬ validRing s n ∨ (s.ring n).state ≠ .open ∨ (s.ring n).kernelCopy = false then (false, s)
  else
    let references := (s.ring n).references endpoint
    if references = 0 ∨ references = 65535 then (false, s)
    else (true, s.setRing n fun r => r.setReferences (references + 1) endpoint)

/-- What the last release of an endpoint of an open ring does. -/
def closeEndpoint (s : RingState) (n : ℕ) (endpoint : KernelRingEndpoint) : RingState :=
  let woken := match endpoint with
    | .producer =>
      RingState.wakeQueues (s.setRing n fun r => { r with
          producerTerminal := astraSyscallClosed
          consumerTerminal := astraSyscallPeerDead })
        (producerWaiters n) (consumerWaiters n) astraSyscallClosed astraSyscallPeerDead
    | .consumer =>
      RingState.wakeQueues (s.setRing n fun r => { r with
          consumerTerminal := astraSyscallClosed
          producerTerminal := astraSyscallPeerDead })
        (consumerWaiters n) (producerWaiters n) astraSyscallClosed astraSyscallPeerDead
  if woken.1 then woken.2.1 else woken.2.1.corrupted

def kernelRingHandleRelease (s : RingState) (n : ℕ) (endpoint : KernelRingEndpoint) : RingState :=
  if ¬ validRing s n ∨ (s.ring n).references endpoint = 0 then s.corrupted
  else
    let s := s.setRing n fun r => r.setReferences (r.references endpoint - 1) endpoint
    let s := if (s.ring n).references endpoint = 0 ∧ (s.ring n).state = .open then
        closeEndpoint s n endpoint
      else s
    maybeFree s n

/-- The answer of a ring that is closing. -/
def closingStatus (r : KernelRing) : KernelRingStatus :=
  if r.producerTerminal = astraSyscallIoError ∨ r.consumerTerminal = astraSyscallIoError then
    .ioError
  else .peerDead

/-- What `kernel_ring_notify` answers: its status, the positions it reports, and the threads woken. -/
structure RingNotified where
  status : KernelRingStatus
  positions : Option (BitVec 32 × BitVec 32)
  woken : ℕ
  deriving DecidableEq, Repr

/-- `kernel_ring_notify` when the position cannot be, or the caller has found the ring corrupt. -/
def notifyFailed (s : RingState) (n : ℕ) : RingNotified × RingState :=
  match failRing s n astraSyscallIoError with
  | (.ok, s, woken) => (⟨.ioError, none, woken⟩, s)
  | (_, s, _) => (⟨.corrupt, none, 0⟩, s)

/-- The end of `kernel_ring_notify`; the waiters of the other endpoint are woken when `wake` holds. -/
def notifyMoved (s : RingState) (n : ℕ) (wake : Bool) (queue : QueueRef) :
    RingNotified × RingState :=
  let positions := some ((s.ring n).producerPosition, (s.ring n).consumerPosition)
  if wake then
    match s.wakeQueue queue astraSyscallOk with
    | (true, s, woken) => (⟨.ok, positions, woken⟩, s)
    | (false, s, _) => (⟨.corrupt, none, 0⟩, s)
  else (⟨.ok, positions, 0⟩, s)

/-- The two branches of `kernel_ring_notify`, of an open ring. -/
def notifyPosition (s : RingState) (n : ℕ) (endpoint : KernelRingEndpoint) (position : BitVec 32) :
    RingNotified × RingState :=
  let r := s.ring n
  let used := ringUsed r
  match endpoint with
  | .producer =>
    let advance := position - r.producerPosition
    if r.producerReferences = 0 then (⟨.closed, none, 0⟩, s)
    else if r.consumerReferences = 0 then (⟨.peerDead, none, 0⟩, s)
    else if r.capacity - used < advance then notifyFailed s n
    else
      let s := s.setRing n fun r => { r with producerPosition := position }
      notifyMoved s n (advance ≠ 0 ∧ ringUsed (s.ring n) ≠ 0) (consumerWaiters n)
  | .consumer =>
    let advance := position - r.consumerPosition
    if r.consumerReferences = 0 then (⟨.closed, none, 0⟩, s)
    else if used < advance then notifyFailed s n
    else
      let s := s.setRing n fun r => { r with consumerPosition := position }
      notifyMoved s n (advance ≠ 0 ∧ r.producerReferences ≠ 0 ∧ ringUsed (s.ring n) < r.capacity)
        (producerWaiters n)

def kernelRingNotify (s : RingState) (n : ℕ) (endpoint : KernelRingEndpoint)
    (position flags : BitVec 32) : RingNotified × RingState :=
  if ¬ validRing s n ∨ (s.ring n).kernelCopy = true ∨ flags &&& ~~~kernelRingNotifyCorrupt ≠ 0 then
    (⟨.invalidArgument, none, 0⟩, s)
  else if (s.ring n).state = .closing then (⟨closingStatus (s.ring n), none, 0⟩, s)
  else if flags &&& kernelRingNotifyCorrupt ≠ 0 then notifyFailed s n
  else if (s.ring n).capacity < ringUsed (s.ring n) then (⟨.corrupt, none, 0⟩, s)
  else notifyPosition s n endpoint position

def waitersOfEndpoint (n : ℕ) : KernelRingEndpoint → QueueRef
  | .producer => producerWaiters n
  | .consumer => consumerWaiters n

/-- The end of `kernel_ring_prepare_wait`. -/
def prepareOn (s : RingState) (queue : QueueRef) : KernelRingStatus × KernelThreadWaitSpec :=
  let spec : KernelThreadWaitSpec := ⟨some queue, kernelThreadWaitQueueSequence s.pool queue⟩
  (if spec.sequence = 0 then .corrupt else .wouldBlock, spec)

/-- `kernel_ring_prepare_wait`, and the spec to wait on. -/
def kernelRingPrepareWait (s : RingState) (n : ℕ) (endpoint : KernelRingEndpoint) :
    KernelRingStatus × KernelThreadWaitSpec :=
  let r := s.ring n
  let used := ringUsed r
  if ¬ validRing s n then (.invalidArgument, ⟨none, 0⟩)
  else if r.state = .closing then (closingStatus r, ⟨none, 0⟩)
  else if r.capacity < used then (.corrupt, ⟨none, 0⟩)
  else
    match endpoint with
    | .producer =>
      if r.producerReferences = 0 then (.closed, ⟨none, 0⟩)
      else if r.consumerReferences = 0 then (.peerDead, ⟨none, 0⟩)
      else if used < r.capacity then (.ok, ⟨none, 0⟩)
      else prepareOn s (producerWaiters n)
    | .consumer =>
      if r.consumerReferences = 0 then (.closed, ⟨none, 0⟩)
      else if used ≠ 0 then (.ok, ⟨none, 0⟩)
      else if r.producerReferences = 0 then (.peerDead, ⟨none, 0⟩)
      else prepareOn s (consumerWaiters n)

def kernelRingCommitWait (s : RingState) (n : ℕ) (endpoint : KernelRingEndpoint) :
    KernelRingStatus :=
  let waiters := kernelThreadWaitQueueCount s.pool (waitersOfEndpoint n endpoint)
  if ¬ validRing s n then .invalidArgument
  else if waiters ≠ 0 ∧ waiters ≠ uint32Max then .ok
  else .invalidState

/-- The loop of `kernel_ring_process_died`, with the rings closed and the threads woken. -/
def processDiedRings (processId : ℕ) :
    RingState → List ℕ → ℕ → ℕ → KernelRingStatus × RingState × ℕ × ℕ
  | s, [], closed, woken => (.ok, s, closed, woken)
  | s, n :: slots, closed, woken =>
    if (s.ring n).state ≠ .open ∨ (s.ring n).kernelCopy = true
        ∨ ((s.ring n).owner ≠ processId ∧ (s.area (s.ring n).area).creator ≠ processId) then
      processDiedRings processId s slots closed woken
    else
      match failRing s n astraSyscallPeerDead with
      | (.ok, s, ringWoken) =>
        processDiedRings processId s slots (closed + 1) (woken + ringWoken)
      | (_, s, _) => (.corrupt, s, 0, 0)

/-- `kernel_ring_process_died`, with the rings closed and the threads woken. -/
def kernelRingProcessDied (s : RingState) (processId : ℕ) :
    KernelRingStatus × RingState × ℕ × ℕ :=
  if processId = 0 then (.invalidArgument, s, 0, 0)
  else processDiedRings processId s (List.range s.ringBackedLimit) 0 0

end Astra
