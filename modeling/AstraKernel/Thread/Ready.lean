import AstraKernel.Thread.Pool

/-!
# The ready lists

One intrusive list for each priority, with a bit of `ready_bitmap` for each list that is not empty.
-/

namespace Astra

open Function

/-- The host's `highest_ready_priority`: a binary search for the highest bit set. -/
def highestReadyPriority (bitmap : BitVec 32) : ℕ :=
  let (bitmap, priority) :=
    if bitmap &&& 0xffff0000#32 ≠ 0 then (bitmap >>> 16, 16) else (bitmap, 0)
  let (bitmap, priority) :=
    if bitmap &&& 0x0000ff00#32 ≠ 0 then (bitmap >>> 8, priority + 8) else (bitmap, priority)
  let (bitmap, priority) :=
    if bitmap &&& 0x000000f0#32 ≠ 0 then (bitmap >>> 4, priority + 4) else (bitmap, priority)
  let (bitmap, priority) :=
    if bitmap &&& 0x0000000c#32 ≠ 0 then (bitmap >>> 2, priority + 2) else (bitmap, priority)
  if bitmap &&& 0x00000002#32 ≠ 0 then priority + 1 else priority

/-- The end of `enqueue_ready`: the thread is the list's new tail. -/
def ReadyQueues.setTail (rq : ReadyQueues) (priority : ℕ) (t : Slot) : ReadyQueues :=
  { rq with
    readyTail := update rq.readyTail priority (some t)
    readyBitmap := rq.readyBitmap ||| (1#32 <<< priority)
    readyCount := rq.readyCount + 1 }

def enqueueReady (p : Pool) (t : Slot) : Result :=
  if ¬ validThread p t ∨ p.state t ≠ .ready ∨ p.suspended t = true
      ∨ kernelThreadPriorityLevels ≤ p.prio.effectivePriority t
      ∨ p.ready.readyPrevious t ≠ none ∨ p.ready.readyNext t ≠ none then
    (.invalidState, p)
  else
    let priority := p.prio.effectivePriority t
    match p.ready.readyTail priority with
    | none =>
      if p.ready.readyHead priority ≠ none then (.corrupt, p)
      else
        let rq := { p.ready with readyHead := update p.ready.readyHead priority (some t) }
        (.ok, { p with ready := rq.setTail priority t })
    | some tail =>
      if ¬ validThread p tail ∨ p.state tail ≠ .ready ∨ p.ready.readyNext tail ≠ none then
        (.corrupt, p)
      else
        let rq := { p.ready with
          readyNext := update p.ready.readyNext tail (some t)
          readyPrevious := update p.ready.readyPrevious t (some tail) }
        (.ok, { p with ready := rq.setTail priority t })

/-- The part of `remove_ready` that takes the thread off its predecessor, or off the head. -/
def removeReadyPrevious (p : Pool) (t : Slot) (priority : ℕ) (previous next : Option Slot) :
    Result :=
  match previous with
  | none =>
    if p.ready.readyHead priority ≠ some t then (.corrupt, p)
    else (.ok, { p with ready := { p.ready with
      readyHead := update p.ready.readyHead priority next } })
  | some previousThread =>
    if ¬ validThread p previousThread ∨ p.ready.readyNext previousThread ≠ some t then (.corrupt, p)
    else (.ok, { p with ready := { p.ready with
      readyNext := update p.ready.readyNext previousThread next } })

/-- The part of `remove_ready` that takes the thread off its successor, or off the tail. -/
def removeReadyNext (p : Pool) (t : Slot) (priority : ℕ) (previous next : Option Slot) : Result :=
  match next with
  | none =>
    if p.ready.readyTail priority ≠ some t then (.corrupt, p)
    else (.ok, { p with ready := { p.ready with
      readyTail := update p.ready.readyTail priority previous } })
  | some nextThread =>
    if ¬ validThread p nextThread ∨ p.ready.readyPrevious nextThread ≠ some t then (.corrupt, p)
    else (.ok, { p with ready := { p.ready with
      readyPrevious := update p.ready.readyPrevious nextThread previous } })

/-- The end of `remove_ready`: the links are cleared and the list is counted out. -/
def removeReadyFinish (p : Pool) (t : Slot) (priority : ℕ) : Result :=
  let rq := { p.ready with
    readyPrevious := update p.ready.readyPrevious t none
    readyNext := update p.ready.readyNext t none }
  if rq.readyCount = 0 then (.corrupt, { p with ready := rq })
  else
    let rq := { rq with readyCount := rq.readyCount - 1 }
    if rq.readyHead priority = none then
      if rq.readyTail priority ≠ none then (.corrupt, { p with ready := rq })
      else (.ok, { p with ready := { rq with
        readyBitmap := rq.readyBitmap &&& ~~~(1#32 <<< priority) } })
    else (.ok, { p with ready := rq })

def removeReady (p : Pool) (t : Slot) : Result :=
  if ¬ validThread p t ∨ p.state t ≠ .ready
      ∨ kernelThreadPriorityLevels ≤ p.prio.effectivePriority t then
    (.invalidState, p)
  else
    let priority := p.prio.effectivePriority t
    let previous := p.ready.readyPrevious t
    let next := p.ready.readyNext t
    (removeReadyPrevious p t priority previous next).andThen fun p =>
      (removeReadyNext p t priority previous next).andThen fun p =>
        removeReadyFinish p t priority

def kernelThreadMakeReady (p : Pool) (t : Slot) : Result :=
  if ¬ validThread p t ∨ p.state t ≠ .running ∨ p.suspended t = true then (.invalidState, p)
  else
    match enqueueReady { p with state := update p.state t .ready } t with
    | (.ok, p) => (.ok, p)
    | (status, p) => (status, { p with state := update p.state t .running })

/-- `kernel_thread_take_next`, and the thread it hands out. -/
def kernelThreadTakeNext (p : Pool) : Result × Option Slot :=
  if p.ready.readyBitmap = 0 then
    if p.ready.readyCount = 0 then ((.noRunnable, p), none) else ((.corrupt, p), none)
  else
    match p.ready.readyHead (highestReadyPriority p.ready.readyBitmap) with
    | none => ((.corrupt, p), none)
    | some next =>
      if ¬ validThread p next then ((.corrupt, p), none)
      else
        match removeReady p next with
        | (.ok, p) => ((.ok, { p with state := update p.state next .running }), some next)
        | (status, p) => ((status, p), none)

def kernelThreadHighestReadyPriority (p : Pool) : Option ℕ :=
  if p.ready.readyBitmap = 0 then none else some (highestReadyPriority p.ready.readyBitmap)

end Astra
