import AstraKernel.Sync.Object

/-!
# Runs of the synchronization objects

Calls on the objects and on the thread pool under them, one after another. A wait probes its members
in turn and blocks on all when none is ready, in one system call.
-/

namespace Astra

open Function

def kernelSyncTimerSet (s : SyncState) (n now deadline : ℕ) (memory : Bool) :
    KernelSyncStatus × SyncState × ℕ :=
  if ¬ validObjectPointer s n then (.invalidArgument, s, 0)
  else if (s.object n).state = .closing then (.closed, s, 0)
  else if ¬ validLiveObject s n then (.corrupt, s, 0)
  else if (s.object n).type ≠ .timer then (.invalidState, s, 0)
  else
    match timerRemove s n with
    | (false, s) => (.corrupt, s, 0)
    | (true, s) =>
      let s := s.setObject n fun o => { o with count := 0 }
      if deadline ≤ now then
        let s := s.setObject n fun o => { o with count := 1 }
        match kernelThreadWakeAll s.pool (syncQueue n) astraSyscallOk with
        | ((.ok, p), woken) => (.ok, s.withPool p, woken)
        | ((_, p), _) => (.corrupt, s.withPool p, 0)
      else
        let r := timerInsert s n deadline memory
        (r.1, r.2, 0)

def kernelSyncTimerCancel (s : SyncState) (n wakeResult : ℕ) : KernelSyncStatus × SyncState × ℕ :=
  if wakeResult = astraSyscallOk ∨ ¬ validObjectPointer s n then (.invalidArgument, s, 0)
  else if (s.object n).state = .closing then (.closed, s, 0)
  else if ¬ validLiveObject s n then (.corrupt, s, 0)
  else if (s.object n).type ≠ .timer then (.invalidState, s, 0)
  else
    match timerRemove s n with
    | (false, s) => (.corrupt, s, 0)
    | (true, s) =>
      let s := s.setObject n fun o => { o with count := 0 }
      match kernelThreadWakeAll s.pool (syncQueue n) wakeResult with
      | ((.ok, p), woken) => (.ok, s.withPool p, woken)
      | ((_, p), _) => (.corrupt, s.withPool p, 0)

/-- The loop of `kernel_sync_expire_timers`, with the timers expired and the threads woken. A turn
takes a timer off the heap, so the heap's length is fuel. -/
def expireTimers (now : ℕ) : ℕ → SyncState → ℕ → ℕ → KernelSyncStatus × SyncState × ℕ × ℕ
  | fuel, s, expired, woken =>
    match s.timerHeap.head?, fuel with
    | none, _ => (.ok, s, expired, woken)
    | some _, 0 => (.corrupt, s, 0, 0)
    | some n, fuel + 1 =>
      if ¬ validObjectPointer s n ∨ now < (s.object n).deadline then (.ok, s, expired, woken)
      else if ¬ validLiveObject s n ∨ (s.object n).type ≠ .timer ∨ (s.object n).count ≠ 0 then
        (.corrupt, s, 0, 0)
      else
        match timerRemove s n with
        | (false, s) => (.corrupt, s, 0, 0)
        | (true, s) =>
          let s := s.setObject n fun o => { o with count := 1 }
          match kernelThreadWakeAll s.pool (syncQueue n) astraSyscallOk with
          | ((.ok, p), objectWoken) =>
            expireTimers now fuel (s.withPool p) (expired + 1) (woken + objectWoken)
          | ((_, p), _) => (.corrupt, s.withPool p, 0, 0)

/-- `kernel_sync_expire_timers`, with the timers expired and the threads woken. -/
def kernelSyncExpireTimers (s : SyncState) (now : ℕ) : KernelSyncStatus × SyncState × ℕ × ℕ :=
  expireTimers now s.timerHeap.length s 0 0

/-- `kernel_sync_next_timer_deadline`, of a heap that has a timer. -/
def kernelSyncNextTimerDeadline (s : SyncState) : Option ℕ :=
  s.timerHeap.head?.map fun n => (s.object n).deadline

/-- The loop of `kernel_sync_owner_died` over the slots, with the objects closed and the threads
woken. -/
def ownerDiedSlots (owner wakeResult : ℕ) :
    SyncState → List ℕ → ℕ → ℕ → KernelSyncStatus × SyncState × ℕ × ℕ
  | s, [], closed, woken => (.ok, s, closed, woken)
  | s, n :: slots, closed, woken =>
    if (s.object n).state ≠ .live ∨ (s.object n).owner ≠ owner then
      ownerDiedSlots owner wakeResult s slots closed woken
    else
      match closeObject s n wakeResult with
      | (.ok, s, objectWoken) =>
        ownerDiedSlots owner wakeResult s slots (closed + 1) (woken + objectWoken)
      | (status, s, _) => (status, s, 0, 0)

/-- `kernel_sync_owner_died`, with the objects closed and the threads woken. -/
def kernelSyncOwnerDied (s : SyncState) (owner wakeResult : ℕ) :
    KernelSyncStatus × SyncState × ℕ × ℕ :=
  if owner = 0 ∨ wakeResult = astraSyscallOk then (.invalidArgument, s, 0, 0)
  else ownerDiedSlots owner wakeResult s (List.range s.objectBackedLimit) 0 0

/-- A member of a wait set: a synchronization object, or an object of another kind, which has a
queue to wait on or is ready as it is probed. -/
inductive WaitMember
  | sync (n : ℕ)
  | pending (spec : KernelThreadWaitSpec)
  | ready
  deriving DecidableEq, Repr

/-- How the probes of a wait set end: with the specs of all members, at a member that is ready or
closed, or with a status that refuses the wait. -/
inductive WaitProbe
  | specs (specs : List KernelThreadWaitSpec)
  | satisfied (index : ℕ)
  | closed (index : ℕ)
  | refused (status : KernelSyncStatus)
  deriving DecidableEq, Repr

/-- The second loop of `wait_handle_set`: the members are probed in turn, up to the first that is
ready. `specs` holds those before, last first. -/
def waitProbes : SyncState → ℕ → List KernelThreadWaitSpec → List WaitMember →
    WaitProbe × SyncState
  | s, _, specs, [] => (.specs specs.reverse, s)
  | s, index, specs, .sync n :: members =>
    match kernelSyncPrepareWait s n with
    | (.blocked, s, spec) => waitProbes s (index + 1) (spec :: specs) members
    | (.ok, s, _) => (.satisfied index, s)
    | (.closed, s, _) => (.closed index, s)
    | (status, s, _) => (.refused status, s)
  | s, index, specs, .pending spec :: members => waitProbes s (index + 1) (spec :: specs) members
  | s, index, _, .ready :: _ => (.satisfied index, s)

def setWaitOutputs (p : Pool) (t : Slot) (multiple : Bool) (index detail : ℕ) : Pool :=
  if multiple then (p.setData t 1 index).setData t 2 detail else p.setData t 1 detail

/-- The end of `wait_handle_set`, when no member is ready. -/
def waitBlock (p : Pool) (t : Slot) (specs : List KernelThreadWaitSpec) (multiple : Bool)
    (now deadline : ℕ) (rowMemory heapMemory : Bool) : Result :=
  if multiple then
    kernelThreadBlockWaitSet (setWaitOutputs p t true astraWaitIndexNone 0) t specs now deadline
      astraSyscallTimedOut rowMemory heapMemory
  else
    kernelThreadBlockUntil p t (specs.head?.bind (·.queue)) ((specs.head?.map (·.sequence)).getD 0)
      now deadline astraSyscallTimedOut rowMemory heapMemory

/-- `wait_handle_set`, from the resolved handles on: how the probes ended, and whether the thread is
blocked. -/
def waitHandleSet (s : SyncState) (t : Slot) (members : List WaitMember) (multiple : Bool)
    (now deadline : ℕ) (rowMemory heapMemory : Bool) : WaitProbe × Bool × SyncState :=
  match waitProbes s 0 [] members with
  | (.specs specs, s) =>
    let r := waitBlock s.pool t specs multiple now deadline rowMemory heapMemory
    (.specs specs, r.1 = .ok, s.withPool r.2)
  | (.satisfied index, s) =>
    (.satisfied index, false,
      if multiple then s.withPool (setWaitOutputs s.pool t true index 0) else s)
  | (.closed index, s) =>
    (.closed index, false,
      if multiple then s.withPool (setWaitOutputs s.pool t true index 0) else s)
  | (.refused status, s) => (.refused status, false, s)

inductive SyncEvent
  | thread (op : ThreadOp)
  | createEvent (owner : ℕ) (flags : BitVec 32) (grant : SyncGrant)
  | createSemaphore (owner initialCount maximumCount : ℕ) (grant : SyncGrant)
  | createTimer (owner : ℕ) (grant : SyncGrant)
  | retain (n : ℕ)
  | release (n : ℕ)
  | wait (n : ℕ) (t : Slot) (now deadline timeoutResult : ℕ) (rowMemory heapMemory : Bool)
  | waitSet (t : Slot) (members : List WaitMember) (multiple : Bool) (now deadline : ℕ)
      (rowMemory heapMemory : Bool)
  | signal (n releaseCount wakeResult : ℕ)
  | reset (n : ℕ)
  | timerSet (n now deadline : ℕ) (memory : Bool)
  | timerCancel (n wakeResult : ℕ)
  | expireTimers (now : ℕ)
  | ownerDied (owner wakeResult : ℕ)
  deriving DecidableEq, Repr

def SyncState.step (s : SyncState) : SyncEvent → SyncState
  | .thread op => s.withPool (s.pool.step op).2
  | .createEvent owner flags grant => (kernelSyncCreateEvent s owner flags grant).2.1
  | .createSemaphore owner initialCount maximumCount grant =>
    (kernelSyncCreateSemaphore s owner initialCount maximumCount grant).2.1
  | .createTimer owner grant => (kernelSyncCreateTimer s owner grant).2.1
  | .retain n => (kernelSyncRetain s n).2
  | .release n => kernelSyncHandleRelease s n
  | .wait n t now deadline timeoutResult rowMemory heapMemory =>
    (kernelSyncWait s n t now deadline timeoutResult rowMemory heapMemory).2
  | .waitSet t members multiple now deadline rowMemory heapMemory =>
    (waitHandleSet s t members multiple now deadline rowMemory heapMemory).2.2
  | .signal n releaseCount wakeResult => (kernelSyncSignal s n releaseCount wakeResult).2.1
  | .reset n => (kernelSyncReset s n).2
  | .timerSet n now deadline memory => (kernelSyncTimerSet s n now deadline memory).2.1
  | .timerCancel n wakeResult => (kernelSyncTimerCancel s n wakeResult).2.1
  | .expireTimers now => (kernelSyncExpireTimers s now).2.1
  | .ownerDied owner wakeResult => (kernelSyncOwnerDied s owner wakeResult).2.1

def SyncState.run (s : SyncState) : List SyncEvent → SyncState
  | [] => s
  | ev :: evs => (s.step ev).run evs

/-- A queue that is not of a synchronization object. -/
def foreignQueue : QueueRef → Prop
  | .object n => kernelSyncObjectMax ≤ n
  | _ => True

/-- The calls of the pool that the rest of the kernel makes keep off the objects' queues. -/
def ThreadOp.foreign : ThreadOp → Prop
  | .blockUntil _ queue _ _ _ _ _ _ => ∀ q ∈ queue, foreignQueue q
  | .blockWaitSet _ specs _ _ _ _ _ => ∀ spec ∈ specs, ∀ q ∈ spec.queue, foreignQueue q
  | .wakeOne queue _ | .wakeAll queue _ | .wakeAllDetail queue _ _ _ => foreignQueue queue
  | _ => True

/-- Every event of the list satisfies `P` in the state it is met in. -/
def SyncState.Along (P : SyncState → SyncEvent → Prop) (s : SyncState) : List SyncEvent → Prop
  | [] => True
  | ev :: evs => P s ev ∧ SyncState.Along P (s.step ev) evs

end Astra
