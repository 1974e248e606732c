import Mathlib.Algebra.Group.Nat.Defs
import Mathlib.Logic.Function.Basic

/-!
# The thread pool

A thread record is named by the slot of the directory it is registered in, and each field of
`KernelThread` is a column indexed by that slot: `p.state s` is `thread_at_slot(s)->state`. Columns
that the same functions write are grouped. A null pointer is `none`, as is
`KERNEL_THREAD_SLOT_NONE`.

A definition has the name of the source's function it embeds, and helpers named after it hold the
loops and the blocks of a long body. Statistics that no function of the pool reads are left out, as
are the FPU state, the stacks and the interrupt-latency samples.
-/

namespace Astra

abbrev kernelThreadPriorityLevels : ℕ := 32
abbrev kernelThreadPriorityMedia : ℕ := 24
abbrev kernelThreadPriorityApplicationMax : ℕ := 19
abbrev kernelThreadWaitMemberMax : ℕ := 255
abbrev kernelThreadSlotNone : ℕ := 65535
abbrev kernelThreadDeadlineNever : ℕ := 18446744073709551615
abbrev kernelThreadStackSize : ℕ := 4096
abbrev threadIdPrefix : ℕ := 0x20000000
abbrev threadIdValueMask : ℕ := threadIdPrefix - 1
abbrev uint32Max : ℕ := 4294967295
abbrev astraWaitIndexNone : ℕ := uint32Max
abbrev astraSyscallOk : ℕ := 0
abbrev astraSyscallTimedOut : ℕ := 7
abbrev astraSyscallPeerDead : ℕ := 8
abbrev astraSyscallClosed : ℕ := 13

abbrev Slot := ℕ

inductive KernelThreadState
  | unused | created | ready | running | blocked | dead
  deriving DecidableEq, Repr

inductive KernelThreadStatus
  | ok | invalidArgument | invalidState | noSlot | noRunnable | conditionChanged
  | deadlineExpired | corrupt | outOfMemory
  deriving DecidableEq, Repr

inductive KernelThreadWaitMode
  | none | one | multiple
  deriving DecidableEq, Repr

inductive KernelThreadDonation
  | none | call | mutex
  deriving DecidableEq, Repr

/-- The address of a wait queue: one inside another kernel object, or one of the two inside a
thread record. -/
inductive QueueRef
  | object (n : ℕ)
  | death (s : Slot)
  | call (s : Slot)
  deriving DecidableEq, Repr

/-- The address of a registration: the thread whose row it is in, and its member index. -/
abbrev Registration := Slot × ℕ

structure KernelThreadWaitQueue where
  sequence : ℕ
  head : Option Registration
  tail : Option Registration
  count : ℕ
  deriving DecidableEq, Repr

def kernelThreadWaitQueueInit : KernelThreadWaitQueue where
  sequence := 1
  head := none
  tail := none
  count := 0

/-- The fields of a registration that change; `thread` and `member` are its address. -/
structure KernelThreadWaitRegistration where
  queue : Option QueueRef
  previous : Option Registration
  next : Option Registration
  deriving DecidableEq, Repr

structure KernelThreadWaitSpec where
  queue : Option QueueRef
  sequence : ℕ
  deriving DecidableEq, Repr

structure PriorityTable where
  basePriority : Slot → ℕ
  inheritedPriority : Slot → ℕ
  donatedPriority : Slot → ℕ
  budgetThrottled : Slot → Bool
  effectivePriority : Slot → ℕ

structure ReadyQueues where
  readyHead : ℕ → Option Slot
  readyTail : ℕ → Option Slot
  readyBitmap : BitVec 32
  readyCount : ℕ
  readyPrevious : Slot → Option Slot
  readyNext : Slot → Option Slot

/-- The wait queues and the threads' registration rows. `waitRegistrationCount` is the thread's
field of that name, `registrationCount` the pool's `wait_registration_count`. A row that is
allocated has `KERNEL_THREAD_WAIT_MEMBER_MAX` registrations. -/
structure WaitTable where
  queue : QueueRef → KernelThreadWaitQueue
  row : Registration → KernelThreadWaitRegistration
  rowAllocated : Slot → Bool
  waitRegistrationCount : Slot → ℕ
  waitMemberCount : Slot → ℕ
  waitMode : Slot → KernelThreadWaitMode
  registrationCount : ℕ

/-- `deadline_heap[0 .. deadline_count)` is the list `heap`. -/
structure DeadlineHeap where
  heap : List Slot
  deadlinePosition : Slot → Option ℕ
  deadlineCycles : Slot → ℕ
  deadlineResult : Slot → ℕ

structure DonorTable where
  waitOwnerId : Slot → ℕ
  waitOwnerSlot : Slot → Option Slot
  waitDonorHead : Slot → Option Slot
  waitDonorPrevious : Slot → Option Slot
  waitDonorNext : Slot → Option Slot
  donationKind : Slot → KernelThreadDonation

/-- The pool. `audit` is the build's `KERNEL_AUDIT`; `data` is a thread's saved data registers;
`waitObserver` names an observer and its context, and `observed` is the log of observer calls, each
with the thread, the observer and the result it was given. -/
structure Pool where
  audit : Bool
  occupied : Slot → Bool
  threadSlots : ℕ
  nextThreadSlot : Slot
  nextThreadId : ℕ
  id : Slot → ℕ
  processId : Slot → ℕ
  processSlot : Slot → ℕ
  state : Slot → KernelThreadState
  suspended : Slot → Bool
  selfHandle : Slot → ℕ
  handleReferences : Slot → ℕ
  stackReleased : Slot → Bool
  reapPending : Slot → Bool
  reapPendingCount : ℕ
  exitStatus : Slot → ℕ
  terminalResult : Slot → ℕ
  call : Slot → ℕ
  nextCall : ℕ
  data : Slot → ℕ → ℕ
  waitObserver : Slot → Option ℕ
  observed : List (Slot × ℕ × ℕ)
  prio : PriorityTable
  ready : ReadyQueues
  waits : WaitTable
  deadlines : DeadlineHeap
  donors : DonorTable
  liveThreads : ℕ
  poolCorrupt : Bool

/-- What a function of the pool returns: a status, and the pool it leaves. -/
abbrev Result := KernelThreadStatus × Pool

/-- `if (r != KERNEL_THREAD_OK) return r;`, and otherwise on with `k`. -/
def Result.andThen (r : Result) (k : Pool → Result) : Result :=
  match r with
  | (.ok, p) => k p
  | (status, p) => (status, p)

/-- `if (r != KERNEL_THREAD_OK) return KERNEL_THREAD_CORRUPT;`, and otherwise on with `k`. -/
def Result.orCorrupt (r : Result) (k : Pool → Result) : Result :=
  match r with
  | (.ok, p) => k p
  | (_, p) => (.corrupt, p)

@[simp] theorem Result.andThen_ok (p : Pool) (k : Pool → Result) :
    Result.andThen (.ok, p) k = k p := rfl

@[simp] theorem Result.orCorrupt_ok (p : Pool) (k : Pool → Result) :
    Result.orCorrupt (.ok, p) k = k p := rfl

theorem Result.andThen_eq_ok {r : Result} {k : Pool → Result} {p' : Pool}
    (h : r.andThen k = (.ok, p')) : ∃ p, r = (.ok, p) ∧ k p = (.ok, p') := by
  obtain ⟨status, p⟩ := r
  cases status
  case ok => exact ⟨p, rfl, h⟩
  all_goals exact absurd (congrArg Prod.fst h) (by simp [Result.andThen])

theorem Result.orCorrupt_eq_ok {r : Result} {k : Pool → Result} {p' : Pool}
    (h : r.orCorrupt k = (.ok, p')) : ∃ p, r = (.ok, p) ∧ k p = (.ok, p') := by
  obtain ⟨status, p⟩ := r
  cases status
  case ok => exact ⟨p, rfl, h⟩
  all_goals exact absurd (congrArg Prod.fst h) (by simp [Result.orCorrupt])

/-- A counted loop that stops at the first failure. -/
def forEach {α : Type*} (body : Pool → α → Result) : Pool → List α → Result
  | p, [] => (.ok, p)
  | p, a :: as => (body p a).andThen fun p => forEach body p as

/-- A loop whose every turn succeeds and takes `I` for what is done to `I` for one more. -/
theorem forEach_ok {α : Type*} {body : Pool → α → Result} {I : List α → Pool → Prop}
    (hb : ∀ a as p, I (a :: as) p → ∃ p', body p a = (.ok, p') ∧ I as p') :
    ∀ (as : List α) (p : Pool), I as p → ∃ p', forEach body p as = (.ok, p') ∧ I [] p'
  | [], p, h => ⟨p, rfl, h⟩
  | a :: as, p, h => by
    obtain ⟨p', hp', hI⟩ := hb a as p h
    obtain ⟨p'', hp'', hI'⟩ := forEach_ok hb as p' hI
    exact ⟨p'', by rw [forEach, hp', Result.andThen_ok, hp''], hI'⟩

def kernelGenerationNext (generation : ℕ) : ℕ :=
  if (generation + 1) % 2 ^ 32 = 0 then 1 else (generation + 1) % 2 ^ 32

/-- `valid_thread`: the directory slot holds a live record. -/
def validThread (p : Pool) (s : Slot) : Prop :=
  p.occupied s = true

instance (p : Pool) (s : Slot) : Decidable (validThread p s) :=
  inferInstanceAs (Decidable (_ = _))

def kernelThreadPoolInit (audit : Bool) : Pool where
  audit := audit
  occupied _ := false
  threadSlots := 0
  nextThreadSlot := 0
  nextThreadId := 0
  id _ := 0
  processId _ := 0
  processSlot _ := 0
  state _ := .unused
  suspended _ := false
  selfHandle _ := 0
  handleReferences _ := 0
  stackReleased _ := false
  reapPending _ := false
  reapPendingCount := 0
  exitStatus _ := 0
  terminalResult _ := 0
  call _ := 0
  nextCall := 0
  data _ _ := 0
  waitObserver _ := none
  observed := []
  prio := ⟨fun _ => 0, fun _ => 0, fun _ => 0, fun _ => false, fun _ => 0⟩
  ready := ⟨fun _ => none, fun _ => none, 0, 0, fun _ => none, fun _ => none⟩
  waits := ⟨fun _ => kernelThreadWaitQueueInit, fun _ => ⟨none, none, none⟩, fun _ => false,
    fun _ => 0, fun _ => 0, fun _ => .none, 0⟩
  deadlines := ⟨[], fun _ => none, fun _ => 0, fun _ => 0⟩
  donors := ⟨fun _ => 0, fun _ => none, fun _ => none, fun _ => none, fun _ => none,
    fun _ => .none⟩
  liveThreads := 0
  poolCorrupt := false

end Astra
