import AstraKernel.Thread.Deadline
import AstraKernel.Thread.Priority

/-!
# Completing a wait

A wake, a timeout and a cancellation complete a wait through `complete_wait`: the thread leaves the
heap, every queue of its wait set and its owner, gets the result, and is made ready.
-/

namespace Astra

open Function

/-- The observer is called at most once; the call itself is an entry of the log. -/
def notifyWaitObserver (p : Pool) (t : Slot) (result : ℕ) : Pool :=
  match p.waitObserver t with
  | none => p
  | some observer =>
    { p with
      waitObserver := update p.waitObserver t none
      observed := p.observed ++ [(t, observer, result)] }

def Pool.setData (p : Pool) (t : Slot) (register value : ℕ) : Pool :=
  { p with data := update p.data t (update (p.data t) register value) }

/-- What `complete_wait` writes to the context of a thread that waited in `mode`. -/
def completeContext (p : Pool) (t : Slot) (mode : KernelThreadWaitMode) (member : Option ℕ)
    (result detail : ℕ) (writeOneDetail : Bool) : Pool :=
  let p := p.setData t 0 result
  if mode = .multiple then (p.setData t 1 (member.getD astraWaitIndexNone)).setData t 2 detail
  else if writeOneDetail then p.setData t 1 detail
  else p

/-- The end of `complete_wait`, from `thread->state = KERNEL_THREAD_READY`. -/
def completeReady (p : Pool) (t : Slot) (result : ℕ) : Result :=
  let p := notifyWaitObserver { p with state := update p.state t .ready } t result
  if p.suspended t then (.ok, p) else (enqueueReady p t).orCorrupt fun p => (.ok, p)

def completeWait (p : Pool) (t : Slot) (winner : Option Registration)
    (alreadyAdvanced : Option QueueRef) (result detail : ℕ) (writeOneDetail : Bool) : Result :=
  if ¬ validThread p t ∨ p.state t ≠ .blocked ∨ p.waits.waitMemberCount t = 0
      ∨ (winner ≠ none ∧ registrationThread p winner ≠ some t) then
    (.invalidState, p)
  else
    let mode := p.waits.waitMode t
    let callWait := mode = .one ∧ (p.waits.row (t, 0)).queue = some (.call t)
    (deadlineRemove p t).andThen fun p =>
      (withdrawWaitSet p t alreadyAdvanced true).andThen fun p =>
        (dropWaitOwner p t).orCorrupt fun p =>
          let p := if callWait then { p with call := update p.call t 0 } else p
          let p := completeContext p t mode (winner.map Prod.snd) result detail writeOneDetail
          completeReady p t result

def wakeWaiter (p : Pool) (registration : Option Registration)
    (alreadyAdvanced : Option QueueRef) (result detail : ℕ) (writeOneDetail : Bool) : Result :=
  match registrationThread p registration with
  | none => (.invalidArgument, p)
  | some t => completeWait p t registration alreadyAdvanced result detail writeOneDetail

/-- The loop of `wake_all_fast` and of `wake_death_waiters`, and the threads woken. A wake takes a
registration off the queue, so its count is fuel. -/
def wakeQueue (queue : QueueRef) (result detail : ℕ) (writeOneDetail : Bool) :
    ℕ → Pool → ℕ → Result × ℕ
  | fuel, p, woken =>
    if (p.waits.queue queue).count = 0 then ((.ok, p), woken)
    else
      match fuel with
      | 0 => ((.corrupt, p), 0)
      | fuel + 1 =>
        match wakeWaiter p (p.waits.queue queue).head (some queue) result detail
            writeOneDetail with
        | (.ok, p) => wakeQueue queue result detail writeOneDetail fuel p (woken + 1)
        | (_, p) => ((.corrupt, p), 0)

/-- `wake_all_fast`, under its two callers' name, and the threads woken. -/
def kernelThreadWakeAllDetail (p : Pool) (queue : QueueRef) (result detail : ℕ)
    (writeOneDetail : Bool) : Result × ℕ :=
  if ¬ validWaitQueueHeader p queue then ((.invalidArgument, p), 0)
  else
    wakeQueue queue result detail writeOneDetail (p.waits.queue queue).count
      { p with waits := p.waits.advance queue } 0

def kernelThreadWakeAll (p : Pool) (queue : QueueRef) (result : ℕ) : Result × ℕ :=
  kernelThreadWakeAllDetail p queue result 0 false

/-- `wake_death_waiters`, and the threads woken. -/
def wakeDeathWaiters (p : Pool) (t : Slot) (result : ℕ) : Result × ℕ :=
  if ¬ validThread p t then ((.invalidArgument, p), 0)
  else if ¬ validWaitQueueHeader p (.death t) then ((.corrupt, p), 0)
  else
    wakeQueue (.death t) result (if result = astraSyscallOk then p.exitStatus t else 0) true
      (p.waits.queue (.death t)).count { p with waits := p.waits.advance (.death t) } 0

/-- `kernel_thread_wake_one`, and the thread woken. -/
def kernelThreadWakeOne (p : Pool) (queue : QueueRef) (result : ℕ) : Result × Option Slot :=
  if ¬ validWaitQueueHeader p queue then ((.invalidArgument, p), none)
  else
    let p := { p with waits := p.waits.advance queue }
    if (p.waits.queue queue).count = 0 then ((.noRunnable, p), none)
    else
      let waiter := registrationThread p (p.waits.queue queue).head
      match wakeWaiter p (p.waits.queue queue).head (some queue) result 0 false with
      | (.ok, p) => ((.ok, p), waiter)
      | (_, p) => ((.corrupt, p), none)

def kernelThreadCancelWait (p : Pool) (t : Slot) (result : ℕ) : Result :=
  if ¬ validThread p t ∨ result = 0 then (.invalidArgument, p)
  else if p.state t ≠ .blocked ∨ p.waits.waitMemberCount t = 0 then (.invalidState, p)
  else completeWait p t none none result 0 false

def kernelThreadObserveWait (p : Pool) (t : Slot) (observer : ℕ) : Result :=
  if ¬ validThread p t ∨ p.state t ≠ .blocked ∨ p.waits.waitMemberCount t = 0
      ∨ p.waitObserver t ≠ none then
    (.invalidArgument, p)
  else (.ok, { p with waitObserver := update p.waitObserver t (some observer) })

/-- The loop of `kernel_thread_expire_deadlines`, with the threads expired and the highest of their
priorities. A turn takes a thread off the heap, so the heap's length is fuel. -/
def expireDeadlines (now : ℕ) : ℕ → Pool → ℕ → ℕ → Result × ℕ × ℕ
  | fuel, p, expired, highest =>
    match p.deadlines.heap.head?, fuel with
    | none, _ => ((.ok, p), expired, highest)
    | some _, 0 => ((.corrupt, p), 0, 0)
    | some t, fuel + 1 =>
      if ¬ validThread p t then ((.corrupt, p), 0, 0)
      else if now < p.deadlines.deadlineCycles t then ((.ok, p), expired, highest)
      else if p.state t ≠ .blocked ∨ p.waits.waitMemberCount t = 0 then ((.corrupt, p), 0, 0)
      else
        let result := p.deadlines.deadlineResult t
        match (deadlineRemove p t).andThen fun p =>
            completeWait p t none none result 0 false with
        | (.ok, p) =>
          expireDeadlines now fuel p (expired + 1)
            (if expired = 0 ∨ highest < p.prio.effectivePriority t then p.prio.effectivePriority t
              else highest)
        | (_, p) => ((.corrupt, p), 0, 0)

/-- `kernel_thread_expire_deadlines`, with the threads expired and the highest of their
priorities. -/
def kernelThreadExpireDeadlines (p : Pool) (now : ℕ) : Result × ℕ × ℕ :=
  if p.audit = true ∧ ¬ deadlineHeapValid p then ((.corrupt, p), 0, 0)
  else expireDeadlines now p.deadlines.heap.length p 0 0

end Astra
