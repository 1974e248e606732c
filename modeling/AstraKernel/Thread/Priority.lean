import AstraKernel.Thread.Ready
import AstraKernel.Thread.Wait

/-!
# Priorities and the wait owners they are donated to

A thread's effective priority is the greatest of its base, its inherited and its donated priority.
A blocked thread that is waiting for another donates its own effective priority to it; a receiver's
donors are an intrusive list, and a change is carried up the owners until a receiver keeps its
priority.
-/

namespace Astra

open Function

/-- The base that `priority_effective` counts: an exhausted budget caps the media band. -/
def throttledBase (base : ℕ) (throttled : Bool) : ℕ :=
  if throttled ∧ kernelThreadPriorityMedia ≤ base then kernelThreadPriorityApplicationMax else base

def priorityEffective (base inherited donatedPriority : ℕ) (throttled : Bool) : ℕ :=
  max (max (throttledBase base throttled) inherited) donatedPriority

def PriorityTable.effectiveOf (prio : PriorityTable) (t : Slot) : ℕ :=
  priorityEffective (prio.basePriority t) (prio.inheritedPriority t) (prio.donatedPriority t)
    (prio.budgetThrottled t)

/-- The four priorities of a thread, as `change_priority` writes them. -/
def PriorityTable.set (prio : PriorityTable) (t : Slot) (base inherited donatedPriority : ℕ)
    (throttled : Bool) : PriorityTable :=
  { prio with
    basePriority := update prio.basePriority t base
    inheritedPriority := update prio.inheritedPriority t inherited
    donatedPriority := update prio.donatedPriority t donatedPriority
    budgetThrottled := update prio.budgetThrottled t throttled }

def PriorityTable.setEffective (prio : PriorityTable) (t : Slot) (effective : ℕ) : PriorityTable :=
  { prio with effectivePriority := update prio.effectivePriority t effective }

/-- What `change_priority` and `kernel_thread_set_process_priority` find wrong with a thread that
is not dead. -/
def priorityCorrupt (p : Pool) (t : Slot) : Prop :=
  (p.state t ≠ .created ∧ p.state t ≠ .ready ∧ p.state t ≠ .running ∧ p.state t ≠ .blocked)
    ∨ kernelThreadPriorityLevels ≤ p.prio.basePriority t
    ∨ kernelThreadPriorityLevels ≤ p.prio.inheritedPriority t
    ∨ kernelThreadPriorityLevels ≤ p.prio.donatedPriority t
    ∨ p.prio.effectivePriority t ≠ p.prio.effectiveOf t

instance (p : Pool) (t : Slot) : Decidable (priorityCorrupt p t) :=
  inferInstanceAs (Decidable (_ ∨ _))

/-- One turn of `change_priority`'s loop out of the wait queues. -/
def changeRemove (t : Slot) (p : Pool) (member : ℕ) : Result :=
  if (p.waits.row (t, member)).queue = none then (.corrupt, p)
  else (removeWaitRegistration p (t, member)).orCorrupt fun p => (.ok, p)

/-- One turn of `change_priority`'s loop back into the wait queues. -/
def changeEnqueue (t : Slot) (queues : ℕ → Option QueueRef) (p : Pool) (member : ℕ) : Result :=
  match queues member with
  | none => (.corrupt, p)
  | some queue => (enqueueWaitRegistration p t member queue).orCorrupt fun p => (.ok, p)

/-- The part of `change_priority` that moves the thread between queues: off the ones of its old
effective priority, the priorities written, and onto the ones of the new. -/
def changeMove (p : Pool) (t : Slot) (base inherited donatedPriority : ℕ) (throttled : Bool) :
    Result :=
  let queued := p.state t = .ready ∧ p.suspended t = false
  let queues member := (p.waits.row (t, member)).queue
  let members := List.range (if p.state t = .blocked then p.waits.waitMemberCount t else 0)
  (if queued then removeReady p t else (.ok, p)).orCorrupt fun p =>
    (forEach (changeRemove t) p members).orCorrupt fun p =>
      let prio := (p.prio.set t base inherited donatedPriority throttled).setEffective t
        (priorityEffective base inherited donatedPriority throttled)
      let p := { p with prio := prio }
      (if queued then enqueueReady p t else (.ok, p)).orCorrupt fun p =>
        forEach (changeEnqueue t queues) p members

def changePriority (p : Pool) (t : Slot) (base inherited donatedPriority : ℕ) (throttled : Bool) :
    Result :=
  if ¬ validThread p t ∨ kernelThreadPriorityLevels ≤ base
      ∨ kernelThreadPriorityLevels ≤ inherited ∨ kernelThreadPriorityLevels ≤ donatedPriority then
    (.invalidArgument, p)
  else if p.state t = .dead then (.invalidState, p)
  else if priorityCorrupt p t then (.corrupt, p)
  else if p.prio.basePriority t = base ∧ p.prio.inheritedPriority t = inherited
      ∧ p.prio.donatedPriority t = donatedPriority ∧ p.prio.budgetThrottled t = throttled then
    (.ok, p)
  else if p.prio.effectivePriority t
      = priorityEffective base inherited donatedPriority throttled then
    (.ok, { p with prio := p.prio.set t base inherited donatedPriority throttled })
  else changeMove p t base inherited donatedPriority throttled

def waitOwner (p : Pool) (caller : Slot) : Option Slot :=
  if p.donors.waitOwnerId caller = 0 then none
  else
    match p.donors.waitOwnerSlot caller with
    | none => none
    | some receiver =>
      if validThread p receiver ∧ p.id receiver = p.donors.waitOwnerId caller then some receiver
      else none

/-- What `refresh_wait_owners` finds wrong with a donor of the receiver. -/
def donorCorrupt (p : Pool) (receiver caller : Slot) : Prop :=
  ¬ validThread p caller ∨ p.donors.waitOwnerSlot caller ≠ some receiver
    ∨ p.donors.waitOwnerId caller ≠ p.id receiver ∨ p.state caller ≠ .blocked
    ∨ (p.donors.donationKind caller = .call
      ∧ (p.call caller = 0 ∨ (p.waits.queue (.call caller)).count = 0))
    ∨ (p.donors.donationKind caller = .mutex
      ∧ (p.waits.waitMemberCount caller ≠ 1 ∨ p.waits.rowAllocated caller = false
        ∨ (p.waits.row (caller, 0)).queue = none))
    ∨ (p.donors.donationKind caller ≠ .call ∧ p.donors.donationKind caller ≠ .mutex)

instance (p : Pool) (receiver caller : Slot) : Decidable (donorCorrupt p receiver caller) :=
  inferInstanceAs (Decidable (_ ∨ _))

/-- The walk of `refresh_wait_owners` over the receiver's donors, for the greatest of their
effective priorities; the fuel is what `++donors > thread_slots` leaves. -/
def donatedPriorityOf (p : Pool) (receiver : Slot) : ℕ → Option Slot → ℕ → Option ℕ
  | _, none, inherited => some inherited
  | 0, some _, _ => none
  | donors + 1, some caller, inherited =>
    if donorCorrupt p receiver caller then none
    else donatedPriorityOf p receiver donors (p.donors.waitDonorNext caller)
      (if inherited < p.prio.effectivePriority caller then p.prio.effectivePriority caller
        else inherited)

/-- The loop of `refresh_wait_owners`; the fuel is what `++depth > thread_slots` leaves. -/
def refreshOwners : ℕ → Pool → Option Slot → Result
  | _, p, none => (.ok, p)
  | 0, p, some _ => (.corrupt, p)
  | depth + 1, p, some receiver =>
    if ¬ validThread p receiver ∨ p.state receiver = .dead then (.corrupt, p)
    else
      match donatedPriorityOf p receiver p.threadSlots (p.donors.waitDonorHead receiver) 0 with
      | none => (.corrupt, p)
      | some inherited =>
        let before := p.prio.effectivePriority receiver
        (changePriority p receiver (p.prio.basePriority receiver)
          (p.prio.inheritedPriority receiver) inherited
          (p.prio.budgetThrottled receiver)).andThen fun p =>
            if before = p.prio.effectivePriority receiver then (.ok, p)
            else if p.donors.waitOwnerId receiver ≠ 0 ∧ waitOwner p receiver = none then
              (.corrupt, p)
            else refreshOwners depth p (waitOwner p receiver)

def refreshWaitOwners (p : Pool) (receiver : Option Slot) : Result :=
  refreshOwners p.threadSlots p receiver

/-- The links of `drop_wait_owner`. -/
def DonorTable.unlink (d : DonorTable) (t receiver : Slot) : DonorTable :=
  let previous := d.waitDonorPrevious t
  let next := d.waitDonorNext t
  let d := match previous with
    | none => { d with waitDonorHead := update d.waitDonorHead receiver next }
    | some before => { d with waitDonorNext := update d.waitDonorNext before next }
  let d := match next with
    | none => d
    | some after => { d with waitDonorPrevious := update d.waitDonorPrevious after previous }
  { d with
    waitOwnerId := update d.waitOwnerId t 0
    waitOwnerSlot := update d.waitOwnerSlot t none
    waitDonorPrevious := update d.waitDonorPrevious t none
    waitDonorNext := update d.waitDonorNext t none
    donationKind := update d.donationKind t .none }

/-- What `drop_wait_owner` finds wrong with the neighbours of a donor. -/
def donorLinksCorrupt (p : Pool) (t receiver : Slot) : Prop :=
  (match p.donors.waitDonorPrevious t with
    | none => p.donors.waitDonorHead receiver ≠ some t
    | some previous => ¬ validThread p previous ∨ p.donors.waitDonorNext previous ≠ some t) ∨
  ∃ next ∈ p.donors.waitDonorNext t,
    ¬ validThread p next ∨ p.donors.waitDonorPrevious next ≠ some t

instance (p : Pool) (t receiver : Slot) : Decidable (donorLinksCorrupt p t receiver) :=
  haveI : Decidable (match p.donors.waitDonorPrevious t with
      | none => p.donors.waitDonorHead receiver ≠ some t
      | some previous => ¬ validThread p previous ∨ p.donors.waitDonorNext previous ≠ some t) :=
    match p.donors.waitDonorPrevious t with
    | none => inferInstanceAs (Decidable (_ ≠ _))
    | some _ => inferInstanceAs (Decidable (_ ∨ _))
  inferInstanceAs (Decidable (_ ∨ _))

def dropWaitOwner (p : Pool) (t : Slot) : Result :=
  if p.donors.waitOwnerId t = 0 then
    if p.donors.waitOwnerSlot t = none ∧ p.donors.waitDonorPrevious t = none
        ∧ p.donors.waitDonorNext t = none ∧ p.donors.donationKind t = .none then
      (.ok, p)
    else (.corrupt, p)
  else
    match waitOwner p t with
    | none => (.corrupt, p)
    | some receiver =>
      if donorLinksCorrupt p t receiver then (.corrupt, p)
      else refreshWaitOwners { p with donors := p.donors.unlink t receiver } (some receiver)

/-- The loop of `withdraw_wait_donors`; the fuel is what `++removed > thread_slots` leaves. -/
def withdrawDonors (receiver : Slot) : ℕ → Pool → Result
  | removed, p =>
    match p.donors.waitDonorHead receiver, removed with
    | none, _ => (.ok, p)
    | some _, 0 => (.corrupt, p)
    | some caller, removed + 1 =>
      if ¬ validThread p caller then (.corrupt, p)
      else (dropWaitOwner p caller).orCorrupt fun p => withdrawDonors receiver removed p

def withdrawWaitDonors (p : Pool) (receiver : Slot) : Result :=
  withdrawDonors receiver p.threadSlots p

/-- A priority is changed, and the change carried to the thread's owner. -/
def changeAndRefresh (p : Pool) (t : Slot) (base inherited : ℕ) (throttled : Bool) : Result :=
  let before := p.prio.effectivePriority t
  (changePriority p t base inherited (p.prio.donatedPriority t) throttled).andThen fun p =>
    if before = p.prio.effectivePriority t then (.ok, p)
    else refreshWaitOwners p (waitOwner p t)

def kernelThreadSetPriority (p : Pool) (t : Slot) (priority : ℕ) : Result :=
  changeAndRefresh p t priority (p.prio.inheritedPriority t) (p.prio.budgetThrottled t)

def kernelThreadSetInheritedPriority (p : Pool) (t : Slot) (priority : ℕ) : Result :=
  changeAndRefresh p t (p.prio.basePriority t) priority (p.prio.budgetThrottled t)

def kernelThreadSetBudgetThrottled (p : Pool) (t : Slot) (throttled : Bool) : Result :=
  changeAndRefresh p t (p.prio.basePriority t) (p.prio.inheritedPriority t) throttled

/-- A live thread of the process. -/
def liveIn (p : Pool) (process : ℕ) (t : Slot) : Prop :=
  validThread p t ∧ p.processSlot t = process ∧ p.state t ≠ .dead

instance (p : Pool) (process : ℕ) (t : Slot) : Decidable (liveIn p process t) :=
  inferInstanceAs (Decidable (_ ∧ _))

def kernelThreadSetProcessPriority (p : Pool) (process priority : ℕ) : Result :=
  if kernelThreadPriorityLevels ≤ priority then (.invalidArgument, p)
  else if ∃ t ∈ List.range p.threadSlots, liveIn p process t ∧ priorityCorrupt p t then
    (.corrupt, p)
  else
    forEach (fun p t =>
      if ¬ liveIn p process t ∨ p.prio.basePriority t = priority then (.ok, p)
      else (kernelThreadSetPriority p t priority).orCorrupt fun p => (.ok, p))
      p (List.range p.threadSlots)

end Astra
