import AstraKernel.Thread.Pool
import Mathlib.Data.List.Range

/-!
# Wait queues and registrations

A blocked thread has one registration for each member of its wait set, and a registration is linked
into the queue it names, behind those of at least its thread's effective priority.
-/

namespace Astra

open Function

/-- `registration_thread`: the audit build proves the registration is a live thread's own, the
release build follows the pointer. -/
def registrationThread (p : Pool) : Option Registration → Option Slot
  | none => none
  | some (t, member) =>
    if p.audit then
      if validThread p t ∧ p.waits.rowAllocated t = true ∧ member < kernelThreadWaitMemberMax then
        some t
      else none
    else some t

def validWaitQueueHeader (p : Pool) (queue : QueueRef) : Prop :=
  (p.waits.queue queue).count ≤ p.waits.registrationCount ∧
    if (p.waits.queue queue).count = 0 then
      (p.waits.queue queue).head = none ∧ (p.waits.queue queue).tail = none
    else
      registrationThread p (p.waits.queue queue).head ≠ none ∧
        registrationThread p (p.waits.queue queue).tail ≠ none

instance (p : Pool) (queue : QueueRef) : Decidable (validWaitQueueHeader p queue) :=
  inferInstanceAs (Decidable (_ ∧ _))

def kernelThreadWaitQueueSequence (p : Pool) (queue : QueueRef) : ℕ :=
  if validWaitQueueHeader p queue then (p.waits.queue queue).sequence else 0

def kernelThreadWaitQueueCount (p : Pool) (queue : QueueRef) : ℕ :=
  if validWaitQueueHeader p queue then (p.waits.queue queue).count else uint32Max

/-- The walk of `valid_wait_queue`; the fuel is what `traversed >= queue->count` leaves. -/
def validWaitQueueWalk (p : Pool) (queue : QueueRef) :
    ℕ → Option Registration → Option Registration → Bool
  | fuel, previous, none => fuel = 0 ∧ previous = (p.waits.queue queue).tail
  | 0, _, some _ => false
  | fuel + 1, previous, some registration =>
    match registrationThread p (some registration) with
    | none => false
    | some t =>
      if ¬ validThread p t ∨ p.state t ≠ .blocked ∨ p.waits.waitMemberCount t = 0
          ∨ p.waits.waitMemberCount t ≤ registration.2
          ∨ (p.waits.row registration).queue ≠ some queue
          ∨ (p.waits.row registration).previous ≠ previous then
        false
      else
        validWaitQueueWalk p queue fuel (some registration) (p.waits.row registration).next

def validWaitQueue (p : Pool) (queue : QueueRef) : Prop :=
  validWaitQueueHeader p queue ∧
    validWaitQueueWalk p queue (p.waits.queue queue).count none (p.waits.queue queue).head = true

instance (p : Pool) (queue : QueueRef) : Decidable (validWaitQueue p queue) :=
  inferInstanceAs (Decidable (_ ∧ _))

/-- The loops of `kernel_thread_wait_queue_waiter_count`: a registration counts when none before it
is of its thread. `prior` holds the threads of the ones before. -/
def waiterCountWalk (p : Pool) : ℕ → List Slot → Option Registration → ℕ
  | _, _, none => 0
  | 0, _, some _ => 0
  | fuel + 1, prior, some registration =>
    (if registration.1 ∈ prior then 0 else 1) +
      waiterCountWalk p fuel (registration.1 :: prior) (p.waits.row registration).next

def kernelThreadWaitQueueWaiterCount (p : Pool) (queue : QueueRef) : ℕ :=
  if validWaitQueue p queue then
    waiterCountWalk p (p.waits.queue queue).count [] (p.waits.queue queue).head
  else uint32Max

def waitRowClear (p : Pool) (t : Slot) : Prop :=
  validThread p t ∧ p.waits.waitRegistrationCount t = 0

instance (p : Pool) (t : Slot) : Decidable (waitRowClear p t) :=
  inferInstanceAs (Decidable (_ ∧ _))

def WaitTable.setQueue (w : WaitTable) (queue : QueueRef)
    (f : KernelThreadWaitQueue → KernelThreadWaitQueue) : WaitTable :=
  { w with queue := update w.queue queue (f (w.queue queue)) }

def WaitTable.setRow (w : WaitTable) (r : Registration)
    (f : KernelThreadWaitRegistration → KernelThreadWaitRegistration) : WaitTable :=
  { w with row := update w.row r (f (w.row r)) }

/-- `queue->sequence = kernel_generation_next(queue->sequence);`. -/
def WaitTable.advance (w : WaitTable) (queue : QueueRef) : WaitTable :=
  w.setQueue queue fun q => { q with sequence := kernelGenerationNext q.sequence }

def resetWaitRow (w : WaitTable) (t : Slot) : WaitTable :=
  { w with
    waitRegistrationCount := update w.waitRegistrationCount t 0
    row := fun r => if r.1 = t then ⟨none, none, none⟩ else w.row r }

/-- `ensure_wait_registrations`; `memory` is whether the frames of a new row are granted. -/
def ensureWaitRegistrations (p : Pool) (t : Slot) (memory : Bool) : Result :=
  if p.waits.rowAllocated t then (.ok, p)
  else if memory then
    let w := { p.waits with rowAllocated := update p.waits.rowAllocated t true }
    (.ok, { p with waits := resetWaitRow w t })
  else (.outOfMemory, p)

/-- The walk of `enqueue_wait_registration`: the neighbours of a registration of priority
`effective`, or `none` where a link is wrong. The fuel bounds a walk that would not end. -/
def enqueueWaitPosition (p : Pool) (queue : QueueRef) (effective : ℕ) :
    ℕ → Option Registration → Option Registration →
      Option (Option Registration × Option Registration)
  | _, previous, none => some (previous, none)
  | 0, _, some _ => none
  | fuel + 1, previous, some next =>
    match registrationThread p (some next) with
    | none => none
    | some queued =>
      if (p.waits.row next).queue ≠ some queue ∨ (p.waits.row next).previous ≠ previous then none
      else if p.prio.effectivePriority queued < effective then some (previous, some next)
      else enqueueWaitPosition p queue effective fuel (some next) (p.waits.row next).next

/-- The links of `enqueue_wait_registration`. -/
def WaitTable.link (w : WaitTable) (r : Registration) (queue : QueueRef)
    (previous next : Option Registration) : WaitTable :=
  let w := w.setRow r fun _ => ⟨some queue, previous, next⟩
  let w := match previous with
    | none => w.setQueue queue fun q => { q with head := some r }
    | some before => w.setRow before fun x => { x with next := some r }
  let w := match next with
    | none => w.setQueue queue fun q => { q with tail := some r }
    | some after => w.setRow after fun x => { x with previous := some r }
  let w := w.setQueue queue fun q => { q with count := q.count + 1 }
  { w with
    registrationCount := w.registrationCount + 1
    waitRegistrationCount := update w.waitRegistrationCount r.1 (w.waitRegistrationCount r.1 + 1) }

def enqueueWaitRegistration (p : Pool) (t : Slot) (member : ℕ) (queue : QueueRef) : Result :=
  if ¬ validThread p t ∨ ¬ validWaitQueueHeader p queue ∨ p.state t ≠ .blocked
      ∨ p.waits.waitMemberCount t ≤ member ∨ (p.waits.queue queue).count = uint32Max
      ∨ p.waits.rowAllocated t = false
      ∨ kernelThreadWaitMemberMax ≤ p.waits.waitRegistrationCount t then
    (.invalidState, p)
  else if (p.waits.row (t, member)).queue ≠ none ∨ (p.waits.row (t, member)).previous ≠ none
      ∨ (p.waits.row (t, member)).next ≠ none then
    (.invalidState, p)
  else
    match enqueueWaitPosition p queue (p.prio.effectivePriority t) p.waits.registrationCount none
        (p.waits.queue queue).head with
    | none => (.corrupt, p)
    | some (previous, next) =>
      (.ok, { p with waits := p.waits.link (t, member) queue previous next })

/-- Whether what comes before the registration, the queue's head or `before`, links to it. -/
def WaitTable.linkedBefore (w : WaitTable) (r : Registration) (queue : QueueRef) :
    Option Registration → Bool
  | none => (w.queue queue).head = some r
  | some before => (w.row before).queue = some queue ∧ (w.row before).next = some r

/-- Whether what comes after the registration, the queue's tail or `after`, links to it. -/
def WaitTable.linkedAfter (w : WaitTable) (r : Registration) (queue : QueueRef) :
    Option Registration → Bool
  | none => (w.queue queue).tail = some r
  | some after => (w.row after).queue = some queue ∧ (w.row after).previous = some r

/-- The links of `remove_wait_registration`. -/
def WaitTable.unlink (w : WaitTable) (r : Registration) (queue : QueueRef)
    (before after : Option Registration) : WaitTable :=
  let w := match before with
    | none => w.setQueue queue fun q => { q with head := after }
    | some b => w.setRow b fun x => { x with next := after }
  let w := match after with
    | none => w.setQueue queue fun q => { q with tail := before }
    | some a => w.setRow a fun x => { x with previous := before }
  let w := w.setQueue queue fun q => { q with count := q.count - 1 }
  let w := { w with
    registrationCount := w.registrationCount - 1
    waitRegistrationCount := update w.waitRegistrationCount r.1 (w.waitRegistrationCount r.1 - 1) }
  w.setRow r fun _ => ⟨none, none, none⟩

def removeWaitRegistration (p : Pool) (r : Registration) : Result :=
  match registrationThread p (some r), (p.waits.row r).queue with
  | some t, some queue =>
    if p.waits.waitRegistrationCount t = 0 ∨ ¬ validWaitQueueHeader p queue
        ∨ (p.waits.queue queue).count = 0 ∨ p.waits.registrationCount = 0 then
      (.corrupt, p)
    else
      let before := (p.waits.row r).previous
      let after := (p.waits.row r).next
      if p.waits.linkedBefore r queue before = false ∨ p.waits.linkedAfter r queue after = false then
        (.corrupt, p)
      else (.ok, { p with waits := p.waits.unlink r queue before after })
  | _, _ => (.invalidState, p)

/-- The first loop of `withdraw_wait_set`: every distinct queue of the set but the one that has
advanced already is checked, and advanced when the wait completes. -/
def withdrawAdvance (t : Slot) (alreadyAdvanced : Option QueueRef) (advanceSequences : Bool)
    (p : Pool) (member : ℕ) : Result :=
  match (p.waits.row (t, member)).queue with
  | none => (.corrupt, p)
  | some queue =>
    if some queue = alreadyAdvanced
        ∨ ∃ prior ∈ List.range member, (p.waits.row (t, prior)).queue = some queue then
      (.ok, p)
    else if ¬ validWaitQueueHeader p queue then (.corrupt, p)
    else if advanceSequences then (.ok, { p with waits := p.waits.advance queue })
    else (.ok, p)

def withdrawWaitSet (p : Pool) (t : Slot) (alreadyAdvanced : Option QueueRef)
    (advanceSequences : Bool) : Result :=
  if p.state t ≠ .blocked ∨ p.waits.waitMemberCount t = 0 ∨ p.waits.rowAllocated t = false then
    (.invalidState, p)
  else
    let members := List.range (p.waits.waitMemberCount t)
    (forEach (withdrawAdvance t alreadyAdvanced advanceSequences) p members).andThen fun p =>
      (forEach (fun p member => removeWaitRegistration p (t, member)) p members).orCorrupt fun p =>
        (.ok, { p with waits := { p.waits with
          waitMemberCount := update p.waits.waitMemberCount t 0
          waitMode := update p.waits.waitMode t .none
          waitRegistrationCount := update p.waits.waitRegistrationCount t 0 } })

end Astra
