import AstraKernel.Thread.Wake

/-!
# Blocking, and the calls a thread waits in

A thread blocks on one queue or on a wait set, if none of them has advanced since it looked. A port
call is a wait on the thread's own call queue: the call number is what a reply capability holds.
-/

namespace Astra

open Function

/-- The loop of `block_wait_set_fast` that checks the members; `prior` holds the ones before. -/
def blockCheck (p : Pool) : List KernelThreadWaitSpec → List KernelThreadWaitSpec →
    KernelThreadStatus
  | _, [] => .ok
  | prior, spec :: specs =>
    match spec.queue with
    | none => .invalidState
    | some queue =>
      if ¬ validWaitQueueHeader p queue then .invalidState
      else if (p.waits.queue queue).sequence ≠ spec.sequence then .conditionChanged
      else
        let additions := 1 + prior.countP fun prior => prior.queue = spec.queue
        if uint32Max - additions < (p.waits.queue queue).count then .noSlot
        else blockCheck p (spec :: prior) specs

/-- The loop of `block_wait_set_fast` that links the members from `member` on, and how many are
linked when it stops. -/
def blockLink (t : Slot) : Pool → ℕ → List KernelThreadWaitSpec → Result × ℕ
  | p, member, [] => ((.ok, p), member)
  | p, member, spec :: specs =>
    match spec.queue with
    | none => ((.invalidState, p), member)
    | some queue =>
      match enqueueWaitRegistration p t member queue with
      | (.ok, p) => blockLink t p (member + 1) specs
      | (status, p) => ((status, p), member)

/-- The end of `block_wait_set_fast` when a member or the deadline is refused. -/
def blockRollback (p : Pool) (t : Slot) (linked : ℕ) (status : KernelThreadStatus) : Result :=
  (forEach (fun p member => removeWaitRegistration p (t, member)) p
      (List.range linked)).orCorrupt fun p =>
    (status, { p with
      state := update p.state t .running
      waits := { p.waits with
        waitMemberCount := update p.waits.waitMemberCount t 0
        waitMode := update p.waits.waitMode t .none } })

/-- `block_wait_set_fast`; `rowMemory` and `heapMemory` are whether the frames of a registration
row and of the deadline heap are granted. -/
def blockWaitSet (p : Pool) (t : Slot) (specs : List KernelThreadWaitSpec) (now deadline : ℕ)
    (timeoutResult : ℕ) (mode : KernelThreadWaitMode) (rowMemory heapMemory : Bool) : Result :=
  if ¬ validThread p t ∨ specs.length = 0 ∨ kernelThreadWaitMemberMax < specs.length
      ∨ p.state t ≠ .running ∨ p.waits.waitMemberCount t ≠ 0
      ∨ p.waits.waitRegistrationCount t ≠ 0 ∨ (mode ≠ .one ∧ mode ≠ .multiple) then
    (.invalidState, p)
  else if deadline ≠ kernelThreadDeadlineNever ∧ deadline ≤ now then (.deadlineExpired, p)
  else if blockCheck p [] specs ≠ .ok then (blockCheck p [] specs, p)
  else
    (ensureWaitRegistrations p t rowMemory).andThen fun p =>
      let p := { p with
        state := update p.state t .blocked
        waits := { p.waits with
          waitMemberCount := update p.waits.waitMemberCount t specs.length
          waitMode := update p.waits.waitMode t mode } }
      let (r, linked) := blockLink t p 0 specs
      let r := r.andThen fun p =>
        if deadline = kernelThreadDeadlineNever then (.ok, p)
        else deadlineInsert p t deadline timeoutResult heapMemory
      match r with
      | (.ok, p) => (.ok, p)
      | (status, p) => blockRollback p t linked status

def kernelThreadBlockUntil (p : Pool) (t : Slot) (queue : Option QueueRef)
    (expectedSequence now deadline timeoutResult : ℕ) (rowMemory heapMemory : Bool) : Result :=
  blockWaitSet p t [⟨queue, expectedSequence⟩] now deadline timeoutResult .one rowMemory heapMemory

def kernelThreadBlockWaitSet (p : Pool) (t : Slot) (specs : List KernelThreadWaitSpec)
    (now deadline timeoutResult : ℕ) (rowMemory heapMemory : Bool) : Result :=
  blockWaitSet p t specs now deadline timeoutResult .multiple rowMemory heapMemory

/-- `kernel_thread_call_begin`, and the call number it hands out. -/
def kernelThreadCallBegin (p : Pool) (t : Slot) (rowMemory : Bool) : Result × ℕ :=
  if ¬ validThread p t ∨ p.state t ≠ .running ∨ p.call t ≠ 0 then ((.invalidArgument, p), 0)
  else
    match ensureWaitRegistrations p t rowMemory with
    | (.ok, p) =>
      let call := kernelGenerationNext p.nextCall
      ((.ok, { p with nextCall := call, call := update p.call t call }), call)
    | (status, p) => ((status, p), 0)

def kernelThreadCallAbort (p : Pool) (t : Slot) : Result :=
  if ¬ validThread p t ∨ p.state t ≠ .running ∨ p.call t = 0
      ∨ (p.waits.queue (.call t)).count ≠ 0 then
    (.invalidState, p)
  else (.ok, { p with call := update p.call t 0 })

def kernelThreadCallBlock (p : Pool) (t : Slot) (now deadline : ℕ) (rowMemory heapMemory : Bool) :
    Result :=
  if ¬ validThread p t ∨ p.call t = 0 then (.invalidArgument, p)
  else
    kernelThreadBlockUntil p t (some (.call t)) (p.waits.queue (.call t)).sequence now deadline
      astraSyscallTimedOut rowMemory heapMemory

def kernelThreadCallWaiting (p : Pool) (slot : Slot) (call : ℕ) : Option Slot :=
  if call = 0 ∨ ¬ validThread p slot ∨ p.call slot ≠ call ∨ p.state slot ≠ .blocked
      ∨ (p.waits.queue (.call slot)).count = 0 then
    none
  else some slot

/-- The walk of `assign_wait_owner` up the owners: whether it meets the caller, or `none` where an
owner is wrong. The fuel is what `++depth > thread_slots` leaves. -/
def assignCycle (p : Pool) (caller : Slot) : ℕ → Option Slot → Option Bool
  | _, none => some false
  | 0, some _ => none
  | depth + 1, some cursor =>
    if cursor = caller then some true
    else if p.donors.waitOwnerId cursor ≠ 0 ∧ waitOwner p cursor = none then none
    else assignCycle p caller depth (waitOwner p cursor)

/-- The links of `assign_wait_owner`: the caller is the receiver's first donor. -/
def DonorTable.link (d : DonorTable) (caller receiver : Slot) (receiverId : ℕ)
    (kind : KernelThreadDonation) : DonorTable :=
  let head := d.waitDonorHead receiver
  let d := match head with
    | none => d
    | some h => { d with waitDonorPrevious := update d.waitDonorPrevious h (some caller) }
  { d with
    waitDonorNext := update d.waitDonorNext caller head
    waitDonorPrevious := update d.waitDonorPrevious caller none
    waitDonorHead := update d.waitDonorHead receiver (some caller)
    waitOwnerSlot := update d.waitOwnerSlot caller (some receiver)
    waitOwnerId := update d.waitOwnerId caller receiverId
    donationKind := update d.donationKind caller kind }

/-- The end of `assign_wait_owner`, when there is a receiver and no cycle. -/
def assignLink (p : Pool) (caller receiver : Slot) (kind : KernelThreadDonation) : Result :=
  if ∃ head ∈ p.donors.waitDonorHead receiver,
      ¬ validThread p head ∨ p.donors.waitDonorPrevious head ≠ none then
    (.corrupt, p)
  else
    refreshWaitOwners
      { p with donors := p.donors.link caller receiver (p.id receiver) kind } (some receiver)

def assignWaitOwner (p : Pool) (caller : Slot) (receiver : Option Slot)
    (kind : KernelThreadDonation) : Result :=
  if ¬ validThread p caller ∨ ∃ r ∈ receiver, ¬ validThread p r ∨ p.state r = .dead then
    (.invalidArgument, p)
  else if p.donors.waitOwnerId caller ≠ 0 ∧ waitOwner p caller = none then (.corrupt, p)
  else if waitOwner p caller = receiver ∧ p.donors.donationKind caller = kind then (.ok, p)
  else
    match assignCycle p caller p.threadSlots receiver with
    | none => (.corrupt, p)
    | some cycle =>
      -- a wait cycle has no runnable owner to boost
      let receiver := if cycle then none else receiver
      (dropWaitOwner p caller).andThen fun p =>
        match receiver with
        | none => (.ok, p)
        | some receiver => assignLink p caller receiver kind

def kernelThreadCallAssign (p : Pool) (caller : Slot) (receiver : Option Slot) : Result :=
  if ¬ validThread p caller ∨ p.call caller = 0
      ∨ kernelThreadCallWaiting p caller (p.call caller) ≠ some caller
      ∨ (p.donors.donationKind caller ≠ .none ∧ p.donors.donationKind caller ≠ .call) then
    (.invalidArgument, p)
  else assignWaitOwner p caller receiver .call

def kernelThreadMutexAssign (p : Pool) (waiter : Slot) (owner : Option Slot) : Result :=
  if ¬ validThread p waiter ∨ p.state waiter ≠ .blocked ∨ p.call waiter ≠ 0
      ∨ p.waits.waitMemberCount waiter ≠ 1 ∨ p.waits.rowAllocated waiter = false
      ∨ (p.waits.row (waiter, 0)).queue = none
      ∨ (p.donors.donationKind waiter ≠ .none ∧ p.donors.donationKind waiter ≠ .mutex) then
    (.invalidArgument, p)
  else assignWaitOwner p waiter owner .mutex

def kernelThreadCallComplete (p : Pool) (t : Slot) (result size handleCount replier : ℕ) :
    Result :=
  if ¬ validThread p t ∨ p.call t = 0 ∨ (p.waits.queue (.call t)).count = 0 then (.invalidState, p)
  else
    let p := ((p.setData t 1 size).setData t 2 handleCount).setData t 3 replier
    let p := { p with call := update p.call t 0 }
    match kernelThreadWakeOne p (.call t) result with
    | ((.ok, p), woken) => if woken = some t then (.ok, p) else (.corrupt, p)
    | ((_, p), _) => (.corrupt, p)

end Astra
