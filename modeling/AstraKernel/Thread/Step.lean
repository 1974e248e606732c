import AstraKernel.Thread.Lifecycle

/-!
# Runs of the pool

Calls on the pool, one after another, from the pool that `kernel_thread_pool_init` leaves. A call's
memory arguments are what the frame allocator grants it.
-/

namespace Astra

inductive ThreadOp
  | allocate (processSlot processId programCounter userStack initialArgument priority : ℕ)
      (memory : ThreadMemory)
  | attachHandle (t : Slot) (handle : ℕ)
  | publish (t : Slot)
  | abort (t : Slot)
  | handleRelease (t : Slot)
  | takeNext
  | makeReady (t : Slot)
  | blockUntil (t : Slot) (queue : Option QueueRef)
      (expectedSequence now deadline timeoutResult : ℕ) (rowMemory heapMemory : Bool)
  | blockWaitSet (t : Slot) (specs : List KernelThreadWaitSpec) (now deadline timeoutResult : ℕ)
      (rowMemory heapMemory : Bool)
  | observeWait (t : Slot) (observer : ℕ)
  | wakeOne (queue : QueueRef) (result : ℕ)
  | wakeAll (queue : QueueRef) (result : ℕ)
  | wakeAllDetail (queue : QueueRef) (result detail : ℕ) (writeOneDetail : Bool)
  | cancelWait (t : Slot) (result : ℕ)
  | expireDeadlines (now : ℕ)
  | callBegin (t : Slot) (rowMemory : Bool)
  | callAbort (t : Slot)
  | callBlock (t : Slot) (now deadline : ℕ) (rowMemory heapMemory : Bool)
  | callAssign (caller : Slot) (receiver : Option Slot)
  | mutexAssign (waiter : Slot) (owner : Option Slot)
  | callComplete (t : Slot) (result size handleCount replier : ℕ)
  | setPriority (t : Slot) (priority : ℕ)
  | setInheritedPriority (t : Slot) (priority : ℕ)
  | setBudgetThrottled (t : Slot) (throttled : Bool)
  | setProcessPriority (process priority : ℕ)
  | suspendProcess (process : ℕ)
  | resumeProcess (process : ℕ)
  | complete (t : Slot) (exitStatus terminalResult : ℕ)
  | waitForDeath (target waiter : Slot) (now deadline timeoutResult : ℕ)
      (rowMemory heapMemory : Bool)
  | finishReap (t : Slot)
  | retireProcess (process terminalResult : ℕ)
  | execRetireOthers (process : ℕ) (survivor : Slot) (terminalResult : ℕ)
  | releaseProcess (process : ℕ)
  deriving DecidableEq, Repr

/-- A call on the pool: its status and the pool it leaves. -/
def Pool.step (p : Pool) : ThreadOp → Result
  | .allocate processSlot processId programCounter userStack initialArgument priority memory =>
    (kernelThreadAllocate p processSlot processId programCounter userStack initialArgument priority
      memory).1
  | .attachHandle t handle => kernelThreadAttachHandle p t handle
  | .publish t => kernelThreadPublish p t
  | .abort t => kernelThreadAbort p t
  | .handleRelease t => (.ok, kernelThreadHandleRelease p t)
  | .takeNext => (kernelThreadTakeNext p).1
  | .makeReady t => kernelThreadMakeReady p t
  | .blockUntil t queue expectedSequence now deadline timeoutResult rowMemory heapMemory =>
    kernelThreadBlockUntil p t queue expectedSequence now deadline timeoutResult rowMemory heapMemory
  | .blockWaitSet t specs now deadline timeoutResult rowMemory heapMemory =>
    kernelThreadBlockWaitSet p t specs now deadline timeoutResult rowMemory heapMemory
  | .observeWait t observer => kernelThreadObserveWait p t observer
  | .wakeOne queue result => (kernelThreadWakeOne p queue result).1
  | .wakeAll queue result => (kernelThreadWakeAll p queue result).1
  | .wakeAllDetail queue result detail writeOneDetail =>
    (kernelThreadWakeAllDetail p queue result detail writeOneDetail).1
  | .cancelWait t result => kernelThreadCancelWait p t result
  | .expireDeadlines now => (kernelThreadExpireDeadlines p now).1
  | .callBegin t rowMemory => (kernelThreadCallBegin p t rowMemory).1
  | .callAbort t => kernelThreadCallAbort p t
  | .callBlock t now deadline rowMemory heapMemory =>
    kernelThreadCallBlock p t now deadline rowMemory heapMemory
  | .callAssign caller receiver => kernelThreadCallAssign p caller receiver
  | .mutexAssign waiter owner => kernelThreadMutexAssign p waiter owner
  | .callComplete t result size handleCount replier =>
    kernelThreadCallComplete p t result size handleCount replier
  | .setPriority t priority => kernelThreadSetPriority p t priority
  | .setInheritedPriority t priority => kernelThreadSetInheritedPriority p t priority
  | .setBudgetThrottled t throttled => kernelThreadSetBudgetThrottled p t throttled
  | .setProcessPriority process priority => kernelThreadSetProcessPriority p process priority
  | .suspendProcess process => kernelThreadSuspendProcess p process
  | .resumeProcess process => kernelThreadResumeProcess p process
  | .complete t exitStatus terminalResult => (kernelThreadComplete p t exitStatus terminalResult).1
  | .waitForDeath target waiter now deadline timeoutResult rowMemory heapMemory =>
    (kernelThreadWaitForDeath p target waiter now deadline timeoutResult rowMemory heapMemory).1
  | .finishReap t => (kernelThreadFinishReap p t).1
  | .retireProcess process terminalResult => (kernelThreadRetireProcess p process terminalResult).1
  | .execRetireOthers process survivor terminalResult =>
    (kernelThreadExecRetireOthers p process survivor terminalResult).1
  | .releaseProcess process => kernelThreadReleaseProcess p process

/-- The pool after some calls, whatever each of them returned. -/
def Pool.run (p : Pool) : List ThreadOp → Pool
  | [] => p
  | op :: ops => (p.step op).2.run ops

/-- A queue that callers name: it belongs to another kernel object, or to a thread there is whose
death is waited for. A thread's own call queue is waited on through `kernel_thread_call_block`. -/
def outerQueue (p : Pool) : Option QueueRef → Prop
  | some (.death s) => validThread p s
  | some (.call _) => False
  | _ => True

/-- What the rest of the kernel keeps to. It waits on queues that are there, and it aborts a thread
only before the thread has run, when no one can wait for it. -/
def Admissible (p : Pool) : ThreadOp → Prop
  | .blockUntil _ queue _ _ _ _ _ _ => outerQueue p queue
  | .blockWaitSet _ specs _ _ _ _ _ => ∀ spec ∈ specs, outerQueue p spec.queue
  | .abort t => p.donors.waitDonorHead t = none
  | _ => True

/-- Every call of the list satisfies `P` in the pool it is made on. -/
def Pool.Along (P : Pool → ThreadOp → Prop) (p : Pool) : List ThreadOp → Prop
  | [] => True
  | op :: ops => P p op ∧ Pool.Along P (p.step op).2 ops

theorem Pool.run_append (p : Pool) (ops ops' : List ThreadOp) :
    p.run (ops ++ ops') = (p.run ops).run ops' := by
  induction ops generalizing p with
  | nil => rfl
  | cons op ops ih => exact ih (p.step op).2

/-- An invariant that every step keeps, under `P`, is kept by every run under `P`. -/
theorem Pool.run_induction {P : Pool → ThreadOp → Prop} {I : Pool → Prop}
    (hstep : ∀ p op, I p → P p op → I (p.step op).2) {p : Pool} {ops : List ThreadOp}
    (h : I p) (ha : p.Along P ops) : I (p.run ops) := by
  induction ops generalizing p with
  | nil => exact h
  | cons op ops ih => exact ih (hstep p op h ha.1) ha.2

end Astra
