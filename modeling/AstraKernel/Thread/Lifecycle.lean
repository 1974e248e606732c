import AstraKernel.Thread.Block

/-!
# Creating, ending and retiring threads

A record lives from `kernel_thread_allocate` until it is reaped or its process is released, and its
slot is then free for another. Its frames, its directory leaf and its kernel stack are left out: an
allocation takes whether they are granted, and a release is taken.
-/

namespace Astra

open Function

def markReapPending (p : Pool) (t : Slot) : Pool :=
  if p.reapPending t then p
  else { p with
    reapPending := update p.reapPending t true
    reapPendingCount := p.reapPendingCount + 1 }

def clearReapPending (p : Pool) (t : Slot) : Pool :=
  if p.reapPending t = false ∨ p.reapPendingCount = 0 then { p with poolCorrupt := true }
  else { p with
    reapPending := update p.reapPending t false
    reapPendingCount := p.reapPendingCount - 1 }

/-- The search of `kernel_thread_allocate` for a free slot, from `next_thread_slot` on. -/
def allocateSlot : ℕ → Pool → Option Slot × Pool
  | 0, p => (none, p)
  | attempt + 1, p =>
    let slot := p.nextThreadSlot
    let next := if slot + 1 = kernelThreadSlotNone then 0 else slot + 1
    let p := { p with nextThreadSlot := next }
    if ¬ validThread p slot then (some slot, p) else allocateSlot attempt p

def allocateThreadIdentity : ℕ → Pool → Option ℕ × Pool
  | 0, p => (none, p)
  | attempt + 1, p =>
    let p := { p with nextThreadId := p.nextThreadId % threadIdValueMask + 1 }
    let id := threadIdPrefix ||| p.nextThreadId
    if (List.range p.threadSlots).any fun slot => validThread p slot ∧ p.id slot = id then
      allocateThreadIdentity attempt p
    else (some id, p)

/-- The record of `kernel_thread_allocate`: cleared frames, with the fields it fills in. -/
def Pool.register (p : Pool) (slot : Slot) (id processId processSlot initialArgument priority : ℕ) :
    Pool :=
  { p with
    occupied := update p.occupied slot true
    threadSlots := max p.threadSlots (slot + 1)
    id := update p.id slot id
    processId := update p.processId slot processId
    processSlot := update p.processSlot slot processSlot
    state := update p.state slot .created
    suspended := update p.suspended slot false
    selfHandle := update p.selfHandle slot 0
    handleReferences := update p.handleReferences slot 0
    stackReleased := update p.stackReleased slot false
    reapPending := update p.reapPending slot false
    exitStatus := update p.exitStatus slot 0
    terminalResult := update p.terminalResult slot 0
    call := update p.call slot 0
    data := update p.data slot (update (fun _ => 0) 2 initialArgument)
    waitObserver := update p.waitObserver slot none
    prio := {
      basePriority := update p.prio.basePriority slot priority
      inheritedPriority := update p.prio.inheritedPriority slot 0
      donatedPriority := update p.prio.donatedPriority slot 0
      budgetThrottled := update p.prio.budgetThrottled slot false
      effectivePriority := update p.prio.effectivePriority slot priority }
    ready := { p.ready with
      readyPrevious := update p.ready.readyPrevious slot none
      readyNext := update p.ready.readyNext slot none }
    waits := { resetWaitRow p.waits slot with
      queue := update (update p.waits.queue (.death slot) kernelThreadWaitQueueInit) (.call slot)
        kernelThreadWaitQueueInit
      rowAllocated := update p.waits.rowAllocated slot false
      waitMemberCount := update p.waits.waitMemberCount slot 0
      waitMode := update p.waits.waitMode slot .none }
    deadlines := { p.deadlines with
      deadlinePosition := update p.deadlines.deadlinePosition slot none
      deadlineCycles := update p.deadlines.deadlineCycles slot 0
      deadlineResult := update p.deadlines.deadlineResult slot 0 }
    donors := {
      waitOwnerId := update p.donors.waitOwnerId slot 0
      waitOwnerSlot := update p.donors.waitOwnerSlot slot none
      waitDonorHead := update p.donors.waitDonorHead slot none
      waitDonorPrevious := update p.donors.waitDonorPrevious slot none
      waitDonorNext := update p.donors.waitDonorNext slot none
      donationKind := update p.donors.donationKind slot .none } }

/-- Whether the frames of a directory leaf, of a thread record and of its stack are granted. -/
structure ThreadMemory where
  leaf : Bool
  record : Bool
  stack : Bool
  deriving DecidableEq, Repr

/-- `kernel_thread_allocate`, and the thread it hands out. -/
def kernelThreadAllocate (p : Pool) (processSlot processId programCounter userStack initialArgument
    priority : ℕ) (memory : ThreadMemory) : Result × Option Slot :=
  if processId = 0 ∨ programCounter = 0 ∨ userStack < kernelThreadStackSize ∨ userStack % 4 ≠ 0
      ∨ kernelThreadPriorityLevels ≤ priority then
    ((.invalidArgument, p), none)
  else
    match allocateSlot kernelThreadSlotNone p with
    | (none, p) => ((.noSlot, p), none)
    | (some slot, p) =>
      let back p := { p with nextThreadSlot := slot }
      if memory.leaf = false then ((.outOfMemory, p), none)
      else if memory.record = false then ((.outOfMemory, back p), none)
      else
        match allocateThreadIdentity threadIdValueMask p with
        | (none, p) => ((.noSlot, back p), none)
        | (some id, p) =>
          if memory.stack = false then ((.outOfMemory, back p), none)
          else ((.ok, p.register slot id processId processSlot initialArgument priority), some slot)

def kernelThreadAttachHandle (p : Pool) (t : Slot) (handle : ℕ) : Result :=
  if ¬ validThread p t ∨ p.state t ≠ .created ∨ handle = 0 ∨ p.handleReferences t ≠ 0
      ∨ p.selfHandle t ≠ 0 then
    (.invalidState, p)
  else (.ok, { p with
    selfHandle := update p.selfHandle t handle
    handleReferences := update p.handleReferences t 1 })

def kernelThreadPublish (p : Pool) (t : Slot) : Result :=
  if ¬ validThread p t ∨ p.state t ≠ .created ∨ p.selfHandle t = 0 ∨ p.handleReferences t = 0 then
    (.invalidState, p)
  else
    match enqueueReady { p with state := update p.state t .ready } t with
    | (.ok, p) => (.ok, { p with liveThreads := p.liveThreads + 1 })
    | (status, p) => (status, { p with state := update p.state t .created })

/-- `while (thread_slots != 0 && thread_at_slot(thread_slots - 1) == NULL) --thread_slots;`. -/
def trimThreadSlots (p : Pool) : ℕ → ℕ
  | 0 => 0
  | slots + 1 => if validThread p slots then slots + 1 else trimThreadSlots p slots

/-- A record leaves the directory, and its slot is free. -/
def Pool.unregister (p : Pool) (t : Slot) : Pool :=
  { p with
    occupied := update p.occupied t false
    nextThreadSlot := if t < p.nextThreadSlot then t else p.nextThreadSlot }

def Pool.trim (p : Pool) : Pool :=
  { p with threadSlots := trimThreadSlots p p.threadSlots }

def kernelThreadAbort (p : Pool) (t : Slot) : Result :=
  if ¬ validThread p t ∨ p.state t ≠ .created ∨ p.handleReferences t ≠ 0
      ∨ p.waits.waitMemberCount t ≠ 0 ∨ kernelThreadWaitQueueCount p (.death t) ≠ 0
      ∨ ¬ waitRowClear p t then
    (.invalidState, p)
  else (.ok, (Pool.unregister { p with state := update p.state t .dead } t).trim)

def kernelThreadHandleRelease (p : Pool) (t : Slot) : Pool :=
  if ¬ validThread p t ∨ p.handleReferences t = 0 then { p with poolCorrupt := true }
  else
    let p := { p with handleReferences := update p.handleReferences t (p.handleReferences t - 1) }
    if p.handleReferences t ≠ 0 then p
    else
      let p := { p with selfHandle := update p.selfHandle t 0 }
      let r := if kernelThreadWaitQueueCount p (.death t) ≠ 0 then
          (wakeDeathWaiters p t astraSyscallClosed).1
        else (.ok, p)
      match r with
      | (.ok, p) => if p.state t = .dead then markReapPending p t else p
      | (_, p) => { p with poolCorrupt := true }

/-- `kernel_thread_complete`, and the death waiters woken. -/
def kernelThreadComplete (p : Pool) (t : Slot) (exitStatus terminalResult : ℕ) : Result × ℕ :=
  if ¬ validThread p t ∨ p.state t ≠ .running ∨ p.waits.waitMemberCount t ≠ 0
      ∨ p.stackReleased t = true then
    ((.invalidState, p), 0)
  else
    match withdrawWaitDonors p t with
    | (.ok, p) =>
      let p := markReapPending { p with
        exitStatus := update p.exitStatus t exitStatus
        terminalResult := update p.terminalResult t terminalResult
        state := update p.state t .dead } t
      match wakeDeathWaiters p t terminalResult with
      | ((.ok, p), woken) =>
        if p.liveThreads = 0 then ((.corrupt, p), 0)
        else ((.ok, { p with liveThreads := p.liveThreads - 1 }), woken)
      | ((_, p), _) => ((.corrupt, p), 0)
    | (_, p) => ((.corrupt, p), 0)

/-- What `kernel_thread_prepare_death_wait` answers: a spec to wait on, or the target's end. -/
structure DeathWait where
  spec : KernelThreadWaitSpec
  ready : Bool
  waitResult : ℕ
  exitStatus : ℕ
  deriving DecidableEq, Repr

def kernelThreadPrepareDeathWait (p : Pool) (target waiter : Slot) :
    KernelThreadStatus × DeathWait :=
  let unset : DeathWait := ⟨⟨none, 0⟩, false, astraSyscallOk, 0⟩
  if ¬ validThread p target ∨ ¬ validThread p waiter ∨ target = waiter
      ∨ p.state waiter ≠ .running then
    (.invalidArgument, unset)
  else if p.state target = .dead then
    (.ok, { unset with
      ready := true
      waitResult := p.terminalResult target
      exitStatus := if p.terminalResult target = astraSyscallOk then p.exitStatus target else 0 })
  else if p.state target = .unused ∨ p.state target = .created then (.invalidState, unset)
  else
    let sequence := kernelThreadWaitQueueSequence p (.death target)
    (if sequence = 0 then .corrupt else .ok, { unset with spec := ⟨some (.death target), sequence⟩ })

def kernelThreadCommitDeathWait (p : Pool) (target : Slot) : KernelThreadStatus :=
  if ¬ validThread p target then .invalidArgument
  else if kernelThreadWaitQueueCount p (.death target) = uint32Max
      ∨ kernelThreadWaitQueueCount p (.death target) = 0 then
    .invalidState
  else .ok

/-- `kernel_thread_wait_for_death`, whether it blocked, and what it answered. -/
def kernelThreadWaitForDeath (p : Pool) (target waiter : Slot) (now deadline timeoutResult : ℕ)
    (rowMemory heapMemory : Bool) : Result × Bool × DeathWait :=
  if timeoutResult = 0 then ((.invalidArgument, p), false, ⟨⟨none, 0⟩, false, astraSyscallOk, 0⟩)
  else
    let (status, answer) := kernelThreadPrepareDeathWait p target waiter
    if status ≠ .ok ∨ answer.ready then ((status, p), false, answer)
    else
      let p := p.setData waiter 1 0
      match kernelThreadBlockUntil p waiter answer.spec.queue answer.spec.sequence now deadline
          timeoutResult rowMemory heapMemory with
      | (.ok, p) =>
        ((kernelThreadCommitDeathWait p target, p),
          decide (kernelThreadCommitDeathWait p target = .ok), answer)
      | r => (r, false, answer)

/-- `kernel_thread_finish_reap`, and whether the record was released. -/
def kernelThreadFinishReap (p : Pool) (t : Slot) : Result × Bool :=
  if ¬ validThread p t ∨ p.state t ≠ .dead ∨ p.reapPending t = false
      ∨ p.waits.waitMemberCount t ≠ 0 ∨ ¬ waitRowClear p t
      ∨ kernelThreadWaitQueueCount p (.death t) ≠ 0 then
    ((.invalidState, p), false)
  else
    let p := clearReapPending { p with stackReleased := update p.stackReleased t true } t
    if p.handleReferences t ≠ 0 then ((.ok, p), false)
    else ((.ok, (p.unregister t).trim), true)

/-- What `kernel_thread_suspend_process` refuses in a live thread of the process. -/
def suspendRefused (p : Pool) (t : Slot) : Prop :=
  p.suspended t = true ∨ (p.state t ≠ .ready ∧ p.state t ≠ .running ∧ p.state t ≠ .blocked)

instance (p : Pool) (t : Slot) : Decidable (suspendRefused p t) :=
  inferInstanceAs (Decidable (_ ∨ _))

/-- One turn of `kernel_thread_suspend_process`'s second loop. -/
def suspendThread (process : ℕ) (p : Pool) (t : Slot) : Result :=
  if ¬ liveIn p process t then (.ok, p)
  else
    (if p.state t = .ready then removeReady p t else (.ok, p)).orCorrupt fun p =>
      (.ok, { p with
        state := if p.state t = .running then update p.state t .ready else p.state
        suspended := update p.suspended t true })

def kernelThreadSuspendProcess (p : Pool) (process : ℕ) : Result :=
  if ∃ t ∈ List.range p.threadSlots, liveIn p process t ∧ suspendRefused p t then
    (.invalidState, p)
  else if ∀ t ∈ List.range p.threadSlots, ¬ liveIn p process t then (.invalidState, p)
  else forEach (suspendThread process) p (List.range p.threadSlots)

/-- What `kernel_thread_resume_process` refuses in a live thread of the process. -/
def resumeRefused (p : Pool) (t : Slot) : Prop :=
  p.suspended t = false ∨ (p.state t ≠ .ready ∧ p.state t ≠ .blocked)

instance (p : Pool) (t : Slot) : Decidable (resumeRefused p t) :=
  inferInstanceAs (Decidable (_ ∨ _))

/-- One turn of `kernel_thread_resume_process`'s second loop. -/
def resumeThread (process : ℕ) (p : Pool) (t : Slot) : Result :=
  if ¬ liveIn p process t then (.ok, p)
  else
    let p := { p with suspended := update p.suspended t false }
    (if p.state t = .ready then enqueueReady p t else (.ok, p)).orCorrupt fun p => (.ok, p)

def kernelThreadResumeProcess (p : Pool) (process : ℕ) : Result :=
  if ∃ t ∈ List.range p.threadSlots, liveIn p process t ∧ resumeRefused p t then
    (.invalidState, p)
  else if ∀ t ∈ List.range p.threadSlots, ¬ liveIn p process t then (.invalidState, p)
  else forEach (resumeThread process) p (List.range p.threadSlots)

/-- How `retire_process_threads` takes a thread off the queue that its state has it on. -/
def retireDequeue (p : Pool) (t : Slot) : Result :=
  match p.state t with
  | .ready => if p.suspended t then (.ok, p) else removeReady p t
  | .blocked =>
    (deadlineRemove p t).orCorrupt fun p =>
      (withdrawWaitSet p t none true).orCorrupt fun p => (.ok, p)
  | .created | .running => (.ok, p)
  | .unused | .dead => (.corrupt, p)

/-- How `retire_process_threads` ends a thread that is off its queues and owners. -/
def retireKill (p : Pool) (t : Slot) (terminalResult : ℕ) (releaseStacks : Bool) : Result :=
  let p := notifyWaitObserver { p with
    exitStatus := update p.exitStatus t 0
    terminalResult := update p.terminalResult t terminalResult
    state := update p.state t .dead } t terminalResult
  let p := markReapPending { p with
    suspended := update p.suspended t false
    stackReleased := if releaseStacks then update p.stackReleased t true else p.stackReleased } t
  (wakeDeathWaiters p t terminalResult).1.orCorrupt fun p => (.ok, p)

/-- A turn of `retire_process_threads` for a thread it retires. -/
def retireThread (terminalResult : ℕ) (releaseStacks : Bool) (p : Pool) (t : Slot) : Result :=
  (retireDequeue p t).andThen fun p =>
    (dropWaitOwner p t).orCorrupt fun p =>
      (withdrawWaitDonors p t).orCorrupt fun p => retireKill p t terminalResult releaseStacks

/-- The loop of `retire_process_threads`, and the threads retired. -/
def retireThreads (process : ℕ) (survivor : Option Slot) (terminalResult : ℕ)
    (releaseStacks : Bool) : Pool → List Slot → ℕ → Result × ℕ
  | p, [], retired => ((.ok, p), retired)
  | p, t :: slots, retired =>
    if ¬ liveIn p process t ∨ some t = survivor then
      retireThreads process survivor terminalResult releaseStacks p slots retired
    else
      match retireThread terminalResult releaseStacks p t with
      | (.ok, p) =>
        retireThreads process survivor terminalResult releaseStacks p slots (retired + 1)
      | r => (r, 0)

/-- `retire_process_threads`, and the threads retired. -/
def retireProcessThreads (p : Pool) (process : ℕ) (survivor : Option Slot) (terminalResult : ℕ)
    (releaseStacks : Bool) : Result × ℕ :=
  if ∃ t ∈ survivor, ¬ validThread p t ∨ p.processSlot t ≠ process ∨ p.state t ≠ .running then
    ((.invalidArgument, p), 0)
  else
    match retireThreads process survivor terminalResult releaseStacks p
        (List.range p.threadSlots) 0 with
    | ((.ok, p), retired) =>
      if (retired = 0 ∧ survivor = none) ∨ p.liveThreads < retired then ((.corrupt, p), 0)
      else ((.ok, { p with liveThreads := p.liveThreads - retired }), retired)
    | r => r

def kernelThreadRetireProcess (p : Pool) (process terminalResult : ℕ) : Result × ℕ :=
  retireProcessThreads p process none terminalResult false

def kernelThreadExecRetireOthers (p : Pool) (process : ℕ) (survivor : Slot) (terminalResult : ℕ) :
    Result × ℕ :=
  retireProcessThreads p process (some survivor) terminalResult true

/-- The loop of `kernel_thread_release_process`, and whether it released a record. -/
def releaseThreads (process : ℕ) : Pool → List Slot → Bool → Result × Bool
  | p, [], found => ((.ok, p), found)
  | p, t :: slots, found =>
    if ¬ validThread p t ∨ p.processSlot t ≠ process then releaseThreads process p slots found
    else if p.state t ≠ .dead then ((.invalidState, p), found)
    else if p.waits.waitMemberCount t ≠ 0 ∨ ¬ waitRowClear p t
        ∨ p.deadlines.deadlinePosition t ≠ none ∨ kernelThreadWaitQueueCount p (.death t) ≠ 0
        ∨ p.handleReferences t ≠ 0 then
      ((.corrupt, p), found)
    else
      let p := clearReapPending { p with stackReleased := update p.stackReleased t true } t
      releaseThreads process (p.unregister t) slots true

def kernelThreadReleaseProcess (p : Pool) (process : ℕ) : Result :=
  match releaseThreads process p (List.range p.threadSlots) false with
  | ((.ok, p), found) => (if found then .ok else .invalidState, p.trim)
  | (r, _) => r

end Astra
