import AstraKernel.Sync.State

/-!
# Events and semaphores

An object lives from its creation until its last reference goes. Before that its last handle, or the
end of its owner, closes it: its waiters are woken with its result, and every call on it is refused
with that.
-/

namespace Astra

open Function

/-- What the allocator grants a new object: the attempt, the frames of a leaf if it takes a new one,
and the unit it is accounted as. -/
structure SyncGrant where
  attempt : Bool
  leaf : Bool
  unit : Bool
  deriving DecidableEq, Repr

/-- The search of `allocate_object` for a free slot, from `offset` past `next_object_slot` on. -/
def allocateObjectSlot (memory : Bool) : ℕ → SyncState → ℕ → Option ℕ × SyncState
  | 0, s, _ => (none, s)
  | fuel + 1, s, offset =>
    let slot := s.nextObjectSlot + offset
    let slot := if kernelSyncObjectMax ≤ slot then slot - kernelSyncObjectMax else slot
    match ensureObjectLeaf s slot memory with
    | (false, s) => (none, s)
    | (true, s) =>
      if (s.object slot).state = .free then
        let next := if slot + 1 = kernelSyncObjectMax then 0 else slot + 1
        (some slot, { s with nextObjectSlot := next })
      else allocateObjectSlot memory fuel s (offset + 1)

/-- The object that `allocate_object` fills its slot with. -/
def SyncState.publish (s : SyncState) (slot owner : ℕ) (type : KernelSyncType) : SyncState :=
  let generation := kernelGenerationNext s.nextObjectGeneration
  let o : KernelSyncObject := { freeSyncObject generation with
    owner := owner
    references := 1
    type := type
    state := .live }
  { s with
    nextObjectGeneration := generation
    activeObjectCount := s.activeObjectCount + 1
    object := update s.object slot o
    pool := { s.pool with waits := s.pool.waits.setQueue (syncQueue slot) fun _ =>
      kernelThreadWaitQueueInit } }

/-- `allocate_object`, and the slot of the object. -/
def allocateObject (s : SyncState) (owner : ℕ) (type : KernelSyncType) (grant : SyncGrant) :
    KernelSyncStatus × SyncState × Option ℕ :=
  if owner = 0 ∨ type = .none then (.invalidArgument, s, none)
  else if grant.attempt = false then (.noSlot, s, none)
  else
    match allocateObjectSlot grant.leaf kernelSyncObjectMax s 0 with
    | (none, s) => (.noSlot, s, none)
    | (some slot, s) =>
      if grant.unit = false then (.corrupt, s.corrupted, none)
      else if (s.object slot).state ≠ .free ∨ (s.object slot).timerPosition ≠ none then
        (.corrupt, s.corrupted, none)
      else (.ok, s.publish slot owner type, some slot)

/-- `free_object`. The queue of a free slot is left out: no one looks at it before `allocate_object`
or a new leaf initialises it. -/
def freeObject (s : SyncState) (n : ℕ) : SyncState :=
  if ¬ validObjectPointer s n ∨ (s.object n).references ≠ 0 ∨ (s.object n).timerPosition ≠ none
      ∨ kernelThreadWaitQueueCount s.pool (syncQueue n) ≠ 0 then
    s.corrupted
  else
    let s := s.setObject n fun o => freeSyncObject o.generation
    if s.activeObjectCount = 0 then s.corrupted
    else
      let s := { s with activeObjectCount := s.activeObjectCount - 1 }
      if s.activeObjectCount = 0 then
        match discardSyncMetadata s with
        | (true, s) => s
        | (false, s) => s.corrupted
      else if n < s.nextObjectSlot then { s with nextObjectSlot := n }
      else s

/-- `close_object`, and the threads woken. -/
def closeObject (s : SyncState) (n wakeResult : ℕ) : KernelSyncStatus × SyncState × ℕ :=
  if ¬ validObjectPointer s n ∨ wakeResult = astraSyscallOk then (.invalidArgument, s, 0)
  else if (s.object n).state = .closing then (.closed, s, 0)
  else if ¬ validLiveObject s n then (.corrupt, s, 0)
  else
    let removed := if (s.object n).type = .timer then timerRemove s n else (true, s)
    if removed.1 = false then (.corrupt, removed.2, 0)
    else
      let s := removed.2.setObject n fun o => { o with
        state := .closing
        closeResult := wakeResult }
      match kernelThreadWakeAll s.pool (syncQueue n) wakeResult with
      | ((.ok, p), woken) =>
        let s := s.withPool p
        (.ok, if (s.object n).references = 0 then freeObject s n else s, woken)
      | ((_, p), _) => (.corrupt, s.withPool p, 0)

def kernelSyncCreateEvent (s : SyncState) (owner : ℕ) (flags : BitVec 32) (grant : SyncGrant) :
    KernelSyncStatus × SyncState × Option ℕ :=
  if flags &&& ~~~kernelSyncEventFlags ≠ 0 then (.invalidArgument, s, none)
  else
    let type := if flags &&& kernelSyncEventManualReset ≠ 0 then .eventManual else .eventAuto
    match allocateObject s owner type grant with
    | (.ok, s, some n) =>
      (.ok, s.setObject n fun o => { o with
        count := if flags &&& kernelSyncEventInitiallySignaled ≠ 0 then 1 else 0
        maximum := 1 }, some n)
    | r => r

def kernelSyncCreateSemaphore (s : SyncState) (owner initialCount maximumCount : ℕ)
    (grant : SyncGrant) : KernelSyncStatus × SyncState × Option ℕ :=
  if maximumCount = 0 ∨ kernelSyncSemaphoreCountMax < maximumCount
      ∨ maximumCount < initialCount then
    (.invalidArgument, s, none)
  else
    match allocateObject s owner .semaphore grant with
    | (.ok, s, some n) =>
      (.ok, s.setObject n fun o => { o with
        count := initialCount
        maximum := maximumCount }, some n)
    | r => r

def kernelSyncCreateTimer (s : SyncState) (owner : ℕ) (grant : SyncGrant) :
    KernelSyncStatus × SyncState × Option ℕ :=
  match allocateObject s owner .timer grant with
  | (.ok, s, some n) => (.ok, s.setObject n fun o => { o with maximum := 1 }, some n)
  | r => r

def kernelSyncRetain (s : SyncState) (n : ℕ) : KernelSyncStatus × SyncState :=
  if ¬ validLiveObject s n then (.invalidArgument, s)
  else if (s.object n).references = kernelSyncReferenceMax then (.countLimit, s)
  else (.ok, s.setObject n fun o => { o with references := o.references + 1 })

/-- The end of `kernel_sync_handle_release`. -/
def releaseLast (s : SyncState) (n : ℕ) : SyncState :=
  freeObject (s.setObject n fun o => { o with references := 0 }) n

def kernelSyncHandleRelease (s : SyncState) (n : ℕ) : SyncState :=
  if ¬ validObjectPointer s n ∨ (s.object n).references = 0 ∨ (s.object n).state = .free then
    s.corrupted
  else if 1 < (s.object n).references then
    s.setObject n fun o => { o with references := o.references - 1 }
  else if (s.object n).state = .live then
    match closeObject s n astraSyscallClosed with
    | (.ok, s, _) =>
      if ¬ validObjectPointer s n ∨ (s.object n).references ≠ 1
          ∨ (s.object n).state ≠ .closing then
        s.corrupted
      else releaseLast s n
    | (_, s, _) => s.corrupted
  else releaseLast s n

/-- `kernel_sync_prepare_wait`, and the spec to wait on. -/
def kernelSyncPrepareWait (s : SyncState) (n : ℕ) :
    KernelSyncStatus × SyncState × KernelThreadWaitSpec :=
  if ¬ validObjectPointer s n then (.invalidArgument, s, ⟨none, 0⟩)
  else if (s.object n).state = .closing then (.closed, s, ⟨none, 0⟩)
  else if ¬ validLiveObject s n then (.corrupt, s, ⟨none, 0⟩)
  else if (s.object n).count ≠ 0 then
    if (s.object n).type ≠ .eventManual ∧ (s.object n).type ≠ .timer then
      (.ok, s.setObject n fun o => { o with count := o.count - 1 }, ⟨none, 0⟩)
    else (.ok, s, ⟨none, 0⟩)
  else if kernelThreadWaitQueueCount s.pool (syncQueue n) = uint32Max then
    (.corrupt, s, ⟨none, 0⟩)
  else
    let spec : KernelThreadWaitSpec :=
      ⟨some (syncQueue n), kernelThreadWaitQueueSequence s.pool (syncQueue n)⟩
    if spec.sequence = 0 then (.corrupt, s, spec) else (.blocked, s, spec)

def kernelSyncCommitWait (s : SyncState) (n : ℕ) : KernelSyncStatus :=
  let waiters := kernelThreadWaitQueueCount s.pool (syncQueue n)
  if ¬ validLiveObject s n then .invalidArgument
  else if waiters = uint32Max ∨ waiters = 0 then .invalidState
  else .ok

/-- What `kernel_sync_wait` makes of the status that a block was refused with. -/
def syncWaitRefused : KernelThreadStatus → KernelSyncStatus
  | .deadlineExpired => .timedOut
  | .invalidArgument | .invalidState | .conditionChanged => .invalidState
  | _ => .corrupt

def kernelSyncWait (s : SyncState) (n : ℕ) (t : Slot) (now deadline timeoutResult : ℕ)
    (rowMemory heapMemory : Bool) : KernelSyncStatus × SyncState :=
  if timeoutResult = astraSyscallOk then (.invalidArgument, s)
  else
    match kernelSyncPrepareWait s n with
    | (.blocked, s, spec) =>
      match kernelThreadBlockUntil s.pool t spec.queue spec.sequence now deadline timeoutResult
          rowMemory heapMemory with
      | (.ok, p) =>
        let s := s.withPool p
        (if kernelSyncCommitWait s n = .ok then .blocked else .corrupt, s)
      | (status, p) => (syncWaitRefused status, s.withPool p)
    | (status, s, _) => (status, s)

/-- The wake loop of `kernel_sync_signal`: whether every wake found a thread, and how many did. -/
def signalWakes (queue : QueueRef) (wakeResult : ℕ) : ℕ → Pool → ℕ → Bool × Pool × ℕ
  | 0, p, woken => (true, p, woken)
  | toWake + 1, p, woken =>
    match kernelThreadWakeOne p queue wakeResult with
    | ((.ok, p), some _) => signalWakes queue wakeResult toWake p (woken + 1)
    | ((_, p), _) => (false, p, woken)

/-- The semaphore's branch of `kernel_sync_signal`. -/
def signalSemaphore (s : SyncState) (n releaseCount wakeResult : ℕ) :
    KernelSyncStatus × SyncState × ℕ :=
  let waiterThreads := kernelThreadWaitQueueWaiterCount s.pool (syncQueue n)
  if waiterThreads = uint32Max then (.corrupt, s, 0)
  else
    let toWake := min releaseCount waiterThreads
    let remainder := releaseCount - toWake
    if (s.object n).maximum - (s.object n).count < remainder then (.countLimit, s, 0)
    else
      match signalWakes (syncQueue n) wakeResult toWake s.pool 0 with
      | (true, p, woken) =>
        (.ok, (s.withPool p).setObject n fun o => { o with count := o.count + remainder }, woken)
      | (false, p, _) => (.corrupt, s.withPool p, 0)

/-- The auto-reset event's branch of `kernel_sync_signal`. -/
def signalEventAuto (s : SyncState) (n wakeResult : ℕ) : KernelSyncStatus × SyncState × ℕ :=
  match kernelThreadWakeOne s.pool (syncQueue n) wakeResult with
  | ((.ok, p), some _) =>
    (.ok, (s.withPool p).setObject n fun o => { o with count := 0 }, 1)
  | ((.noRunnable, p), _) =>
    (.ok, (s.withPool p).setObject n fun o => { o with count := 1 }, 0)
  | ((_, p), _) => (.corrupt, s.withPool p, 0)

/-- The manual-reset event's branch of `kernel_sync_signal`. -/
def signalEventManual (s : SyncState) (n wakeResult : ℕ) : KernelSyncStatus × SyncState × ℕ :=
  let s := s.setObject n fun o => { o with count := 1 }
  match kernelThreadWakeAll s.pool (syncQueue n) wakeResult with
  | ((.ok, p), woken) => (.ok, s.withPool p, woken)
  | ((_, p), _) => (.corrupt, s.withPool p, 0)

/-- `kernel_sync_signal`, and the threads woken. -/
def kernelSyncSignal (s : SyncState) (n releaseCount wakeResult : ℕ) :
    KernelSyncStatus × SyncState × ℕ :=
  if releaseCount = 0 ∨ wakeResult ≠ astraSyscallOk ∨ ¬ validObjectPointer s n then
    (.invalidArgument, s, 0)
  else if (s.object n).state = .closing then (.closed, s, 0)
  else if ¬ validLiveObject s n then (.corrupt, s, 0)
  else
    match (s.object n).type with
    | .eventManual =>
      if releaseCount ≠ 1 then (.invalidArgument, s, 0) else signalEventManual s n wakeResult
    | .eventAuto =>
      if releaseCount ≠ 1 then (.invalidArgument, s, 0) else signalEventAuto s n wakeResult
    | .semaphore => signalSemaphore s n releaseCount wakeResult
    | .none | .timer => (.invalidState, s, 0)

def kernelSyncReset (s : SyncState) (n : ℕ) : KernelSyncStatus × SyncState :=
  if ¬ validObjectPointer s n then (.invalidArgument, s)
  else if (s.object n).state = .closing then (.closed, s)
  else if ¬ validLiveObject s n then (.corrupt, s)
  else if (s.object n).type ≠ .eventAuto ∧ (s.object n).type ≠ .eventManual then (.invalidState, s)
  else (.ok, s.setObject n fun o => { o with count := 0 })

end Astra
