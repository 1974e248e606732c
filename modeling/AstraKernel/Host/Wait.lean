import AstraKernel.Thread.Pool

/-!
# Waits on the host

The waits of `process.c` on host channels and audio streams, the interrupt service that ends them,
and the host beside them. System calls and interrupts run with interrupts masked, one at a time
(`KernelTask`); the host runs at every moment, and a call is cut wherever it looks at it.
-/

namespace Astra

abbrev kernelVmHostChannelPageCount : ℕ := 256
abbrev kernelAudioStreamMax : ℕ := 32
abbrev kernelVmHostChannelBase : ℕ := 0x4ff00000
abbrev astraHostChannelAddressEnd : ℕ := 0x50000000
abbrev hostChannelPageSize : ℕ := 4096
abbrev syscallInvalidArgument : ℕ := 2
abbrev syscallResourceLimit : ℕ := 5
abbrev syscallOutOfMemory : ℕ := 11

/-- A bit of `host_channel_waiting` or of `audio_stream_waiting`. -/
inductive HostSlot
  | channel (i : Fin kernelVmHostChannelPageCount)
  | stream (i : Fin kernelAudioStreamMax)
  deriving DecidableEq

/-- What the header of a channel says where it can be read. -/
structure KernelPlatformHostChannelState where
  ready : Bool
  generation : UInt32
  consumerPosition : UInt32
  status : UInt32
  deriving DecidableEq

structure KernelPlatformAudioStreamState where
  generation : UInt32
  queued : UInt32
  consumed : UInt32
  status : UInt32
  deriving DecidableEq

structure KernelHostChannel where
  active : Bool
  dead : Bool
  waiting : Bool
  processId : UInt32
  threadId : UInt32
  channelGeneration : UInt32
  virtualAddress : ℕ
  expectedConsumer : UInt32
  deriving DecidableEq

/-- A record that was cleared. -/
def KernelHostChannel.zero : KernelHostChannel := ⟨false, false, false, 0, 0, 0, 0, 0⟩

inductive KernelAudioStreamState
  | free | opened | dead
  deriving DecidableEq

structure KernelAudioStream where
  state : KernelAudioStreamState
  generation : UInt32
  bufferCount : UInt32
  deriving DecidableEq

/-- The thread that calls. -/
structure HostCaller where
  id : UInt32
  processId : UInt32
  generation : UInt32
  deriving DecidableEq

/-- Where the kernel is. Of the waits: before the slot is armed, before the second look, and before
the thread is blocked. Of the interrupt service: the slot that is next, the threads woken so far and
whether all was valid. -/
inductive KernelTask
  | idle
  | channelArm (thread : HostCaller) (i : Fin kernelVmHostChannelPageCount) (consumer : UInt32)
  | channelLook (thread : HostCaller) (i : Fin kernelVmHostChannelPageCount) (consumer : UInt32)
  | channelBlock (thread : HostCaller) (i : Fin kernelVmHostChannelPageCount) (consumer : UInt32)
  | streamArm (thread : HostCaller) (i : Fin kernelAudioStreamMax)
  | streamLook (thread : HostCaller) (i : Fin kernelAudioStreamMax)
  | streamBlock (thread : HostCaller) (i : Fin kernelAudioStreamMax)
  | scanChannels (i woken : ℕ) (valid : Bool)
  | scanStreams (i woken : ℕ) (valid : Bool)
  deriving DecidableEq

/-- What a call answers, or that it goes on. -/
inductive HostOutcome
  | goesOn
  | blocked
  | ended (result : ℕ)
  | failed (status : KernelThreadStatus)
  | served (woken : ℕ) (valid : Bool)
  deriving DecidableEq

/-- `waiters` are the wait queues and `asleep` the threads that are blocked on one; `armed` and
`raised` belong to the host, which fires where an armed slot's condition holds. -/
structure HostWaits where
  channels : Fin kernelVmHostChannelPageCount → KernelHostChannel
  streams : Fin kernelAudioStreamMax → KernelAudioStream
  channelHeader : Fin kernelVmHostChannelPageCount → Option KernelPlatformHostChannelState
  streamHeader : Fin kernelAudioStreamMax → Option KernelPlatformAudioStreamState
  waiting : HostSlot → Bool
  waiters : HostSlot → List UInt32
  asleep : UInt32 → Option HostSlot
  armed : HostSlot → Option UInt32
  raised : HostSlot → Bool
  task : KernelTask

def hostChannelResult (channel : KernelHostChannel)
    (header : Option KernelPlatformHostChannelState) (expectedConsumer : UInt32) : Option ℕ :=
  match header with
  | none => some astraSyscallPeerDead
  | some state =>
    if ¬state.ready ∨ state.generation ≠ channel.channelGeneration then some astraSyscallPeerDead
    else if state.status.toNat ≠ astraSyscallOk then some state.status.toNat
    else if 0 ≤ (state.consumerPosition - expectedConsumer).toInt32 then some astraSyscallOk
    else none

def audioStreamResult (stream : KernelAudioStream)
    (header : Option KernelPlatformAudioStreamState) : Option ℕ :=
  if stream.state ≠ .opened then some astraSyscallPeerDead
  else
    match header with
    | none => some astraSyscallPeerDead
    | some state =>
      if state.generation ≠ stream.generation then some astraSyscallPeerDead
      else if state.status.toNat ≠ astraSyscallOk then some state.status.toNat
      else
        let outstanding := state.queued - state.consumed
        if stream.bufferCount < outstanding then some syscallInvalidArgument
        else if outstanding < stream.bufferCount then some astraSyscallOk
        else none

def waitFailureToSyscall : KernelThreadStatus → Option ℕ
  | .deadlineExpired => some astraSyscallTimedOut
  | .noSlot => some syscallResourceLimit
  | .outOfMemory => some syscallOutOfMemory
  | _ => none

/-- What a refused wait answers: it looks a last time where the queue moved. -/
def refusedOutcome (status : KernelThreadStatus) (result : Option ℕ) : HostOutcome :=
  match status, result with
  | .conditionChanged, some result => .ended result
  | status, _ =>
    match waitFailureToSyscall status with
    | some result => .ended result
    | none => .failed status

namespace HostWaits

def setChannel (σ : HostWaits) (i : Fin kernelVmHostChannelPageCount)
    (channel : KernelHostChannel) : HostWaits :=
  { σ with channels := Function.update σ.channels i channel }

def setStream (σ : HostWaits) (i : Fin kernelAudioStreamMax) (stream : KernelAudioStream) :
    HostWaits :=
  { σ with streams := Function.update σ.streams i stream }

def setWaiting (σ : HostWaits) (slot : HostSlot) (value : Bool) : HostWaits :=
  { σ with waiting := Function.update σ.waiting slot value }

def disarm (σ : HostWaits) (slot : HostSlot) : HostWaits :=
  { σ with armed := Function.update σ.armed slot none }

/-- `kernel_thread_block_until` where it answers OK. -/
def block (σ : HostWaits) (thread : UInt32) (slot : HostSlot) : HostWaits :=
  { σ with
    waiters := Function.update σ.waiters slot (σ.waiters slot ++ [thread])
    asleep := Function.update σ.asleep thread (some slot) }

/-- `kernel_thread_wake_all`. -/
def wakeAll (σ : HostWaits) (slot : HostSlot) : HostWaits :=
  { σ with
    waiters := Function.update σ.waiters slot []
    asleep := fun thread => if thread ∈ σ.waiters slot then none else σ.asleep thread }

/-- `kernel_thread_wait_queue_init`: whoever is asleep on the queue stays so. -/
def initQueue (σ : HostWaits) (slot : HostSlot) : HostWaits :=
  { σ with waiters := Function.update σ.waiters slot [] }

/-- The condition that ends a wait on a slot. -/
def result (σ : HostWaits) : HostSlot → Option ℕ
  | .channel i => hostChannelResult (σ.channels i) (σ.channelHeader i) (σ.channels i).expectedConsumer
  | .stream i => audioStreamResult (σ.streams i) (σ.streamHeader i)

/-! ## The host -/

/-- The condition that the host was given with the arm. -/
def hostResult (σ : HostWaits) (position : UInt32) : HostSlot → Option ℕ
  | .channel i => hostChannelResult (σ.channels i) (σ.channelHeader i) position
  | .stream i => audioStreamResult (σ.streams i) (σ.streamHeader i)

/-- The host raises the interrupt of an armed slot whose condition holds, and disarms it. -/
def fire (σ : HostWaits) (slot : HostSlot) : HostWaits :=
  match σ.armed slot with
  | none => σ
  | some position =>
    if (σ.hostResult position slot).isSome then
      { σ with
        armed := Function.update σ.armed slot none
        raised := Function.update σ.raised slot true }
    else σ

def arm (σ : HostWaits) (slot : HostSlot) (position : UInt32) : HostWaits :=
  fire { σ with armed := Function.update σ.armed slot (some position) } slot

/-- The words of a channel's header change: the host publishes, or the program that owns the buffer
writes into it. -/
def publishChannel (σ : HostWaits) (i : Fin kernelVmHostChannelPageCount)
    (header : Option KernelPlatformHostChannelState) : HostWaits :=
  fire { σ with channelHeader := Function.update σ.channelHeader i header } (.channel i)

def publishStream (σ : HostWaits) (i : Fin kernelAudioStreamMax)
    (header : Option KernelPlatformAudioStreamState) : HostWaits :=
  fire { σ with streamHeader := Function.update σ.streamHeader i header } (.stream i)

/-! ## The waits -/

def hostChannelSlot (σ : HostWaits) (process : UInt32) (thread : HostCaller) (address : ℕ) :
    Option (Fin kernelVmHostChannelPageCount) :=
  if thread.processId ≠ process ∨ address < kernelVmHostChannelBase ∨
      astraHostChannelAddressEnd ≤ address ∨
      (address - kernelVmHostChannelBase) % hostChannelPageSize ≠ 0 then none
  else if h : (address - kernelVmHostChannelBase) / hostChannelPageSize <
      kernelVmHostChannelPageCount then
    let channel := σ.channels ⟨_, h⟩
    if channel.active ∧ channel.processId = process ∧ channel.threadId = thread.id ∧
        channel.channelGeneration = thread.generation ∧ channel.virtualAddress = address then
      some ⟨_, h⟩
    else none
  else none

/-- `host_channel_wait` up to its first look. -/
def hostChannelWait (σ : HostWaits) (process : UInt32) (thread : HostCaller) (address : ℕ)
    (consumer : UInt32) (now deadline : ℕ) : HostWaits × HostOutcome :=
  match σ.hostChannelSlot process thread address with
  | none => (σ, .ended syscallInvalidArgument)
  | some i =>
    if (σ.channels i).channelGeneration ≠ thread.generation then (σ, .ended syscallInvalidArgument)
    else if (σ.channels i).dead then (σ, .ended astraSyscallPeerDead)
    else
      let σ := σ.setChannel i { σ.channels i with waiting := false }
      match hostChannelResult (σ.channels i) (σ.channelHeader i) consumer with
      | some result => (σ, .ended result)
      | none =>
        if deadline ≠ kernelThreadDeadlineNever ∧ deadline ≤ now then
          (σ, .ended astraSyscallTimedOut)
        else ({ σ with task := .channelArm thread i consumer }, .goesOn)

/-- `audio_stream_wait` up to its first look. -/
def audioStreamWait (σ : HostWaits) (thread : HostCaller) (i : Fin kernelAudioStreamMax)
    (now deadline : ℕ) : HostWaits × HostOutcome :=
  if (σ.streams i).state ≠ .opened then (σ, .ended astraSyscallPeerDead)
  else
    match audioStreamResult (σ.streams i) (σ.streamHeader i) with
    | some result => (σ, .ended result)
    | none =>
      if deadline ≠ kernelThreadDeadlineNever ∧ deadline ≤ now then
        (σ, .ended astraSyscallTimedOut)
      else ({ σ with task := .streamArm thread i }, .goesOn)

/-- The interrupt service acknowledges: no interrupt is pending any more. -/
def irqService (σ : HostWaits) : HostWaits :=
  { σ with
    raised := fun _ => false
    task := .scanChannels 0 0 true }

/-- One slot of the scan. A word's loop ends behind its last bit, where the other slots would be
passed over. -/
def scanChannel (σ : HostWaits) (i : Fin kernelVmHostChannelPageCount) (woken : ℕ)
    (valid : Bool) : HostWaits × ℕ × Bool :=
  let slot := .channel i
  if ¬σ.waiting slot then (σ, woken, valid)
  else if ¬(σ.channels i).active ∨ ¬(σ.channels i).waiting then
    (σ.setWaiting slot false, woken, valid)
  else
    match σ.result slot with
    | none => (σ, woken, valid)
    | some _ =>
      let count := (σ.waiters slot).length
      ((((σ.wakeAll slot).setChannel i { σ.channels i with waiting := false }).setWaiting slot
        false), woken + count, valid && count ≤ 1)

def scanStream (σ : HostWaits) (i : Fin kernelAudioStreamMax) (woken : ℕ) (valid : Bool) :
    HostWaits × ℕ × Bool :=
  let slot := .stream i
  if ¬σ.waiting slot then (σ, woken, valid)
  else if (σ.streams i).state ≠ .opened ∨ (σ.waiters slot).length = 0 then
    (σ.setWaiting slot false, woken, valid)
  else
    match σ.result slot with
    | none => (σ, woken, valid)
    | some _ =>
      ((σ.wakeAll slot).setWaiting slot false, woken + (σ.waiters slot).length, valid)

/-- The kernel goes on to where it looks at the host next, or to its end. `answer` is what the
thread layer answers to a thread that wants to block. -/
def goOn (answer : KernelThreadStatus) (σ : HostWaits) : HostWaits × HostOutcome :=
  match σ.task with
  | .idle => (σ, .goesOn)
  | .channelArm thread i consumer =>
    let σ := σ.setChannel i { σ.channels i with expectedConsumer := consumer, waiting := true }
    let σ := (σ.setWaiting (.channel i) true).arm (.channel i) consumer
    ({ σ with task := .channelLook thread i consumer }, .goesOn)
  | .channelLook thread i consumer =>
    match hostChannelResult (σ.channels i) (σ.channelHeader i) consumer with
    | some result =>
      let σ := (σ.setChannel i { σ.channels i with waiting := false }).disarm (.channel i)
      ({ σ with task := .idle }, .ended result)
    | none => ({ σ with task := .channelBlock thread i consumer }, .goesOn)
  | .channelBlock thread i consumer =>
    if answer = .ok then
      ({ σ.block thread.id (.channel i) with task := .idle }, .blocked)
    else
      let result := hostChannelResult (σ.channels i) (σ.channelHeader i) consumer
      let σ := (σ.setChannel i { σ.channels i with waiting := false }).disarm (.channel i)
      ({ σ with task := .idle }, refusedOutcome answer result)
  | .streamArm thread i =>
    let σ := (σ.setWaiting (.stream i) true).arm (.stream i) 0
    ({ σ with task := .streamLook thread i }, .goesOn)
  | .streamLook thread i =>
    match audioStreamResult (σ.streams i) (σ.streamHeader i) with
    | some result => ({ σ with task := .idle }, .ended result)
    | none => ({ σ with task := .streamBlock thread i }, .goesOn)
  | .streamBlock thread i =>
    if answer = .ok then
      ({ σ.block thread.id (.stream i) with task := .idle }, .blocked)
    else
      let σ := σ.setWaiting (.stream i) false
      ({ σ with task := .idle },
        refusedOutcome answer (audioStreamResult (σ.streams i) (σ.streamHeader i)))
  | .scanChannels i woken valid =>
    if h : i < kernelVmHostChannelPageCount then
      let (σ, woken, valid) := σ.scanChannel ⟨i, h⟩ woken valid
      ({ σ with task := .scanChannels (i + 1) woken valid }, .goesOn)
    else ({ σ with task := .scanStreams 0 woken valid }, .goesOn)
  | .scanStreams i woken valid =>
    if h : i < kernelAudioStreamMax then
      let (σ, woken, valid) := σ.scanStream ⟨i, h⟩ woken valid
      ({ σ with task := .scanStreams (i + 1) woken valid }, .goesOn)
    else ({ σ with task := .idle }, .served woken valid)

/-! ## The rest of a slot's life -/

def audioStreamEnd (σ : HostWaits) (i : Fin kernelAudioStreamMax) : HostWaits :=
  if (σ.streams i).state ≠ .opened then σ
  else
    ((σ.setStream i { σ.streams i with state := .dead }).setWaiting (.stream i) false).wakeAll
      (.stream i)

def audioStreamRelease (σ : HostWaits) (i : Fin kernelAudioStreamMax) : HostWaits :=
  if (σ.streams i).state = .free then σ
  else ((σ.audioStreamEnd i).setStream i ⟨.free, 0, 0⟩).initQueue (.stream i)

/-- What `audio_stream_open` makes of a free record. -/
def audioStreamOpen (σ : HostWaits) (i : Fin kernelAudioStreamMax)
    (generation bufferCount : UInt32) : HostWaits :=
  if (σ.streams i).state = .free then
    (σ.initQueue (.stream i)).setStream i ⟨.opened, generation, bufferCount⟩
  else σ

/-- The wake-up of `host_channel_kill` and of `host_channel_close_slot`. -/
def wakeOwner (σ : HostWaits) (i : Fin kernelVmHostChannelPageCount) : HostWaits :=
  if (σ.channels i).waiting then
    (σ.wakeAll (.channel i)).setChannel i { σ.channels i with waiting := false }
  else σ

def hostChannelKill (σ : HostWaits) (i : Fin kernelVmHostChannelPageCount) : HostWaits :=
  if (σ.channels i).dead then σ
  else
    let σ := σ.wakeOwner i
    σ.setChannel i { σ.channels i with dead := true }

def hostChannelCloseSlot (σ : HostWaits) (process : UInt32)
    (i : Fin kernelVmHostChannelPageCount) : HostWaits :=
  if ¬(σ.channels i).active then σ
  else if (σ.channels i).processId ≠ process then σ
  else ((σ.wakeOwner i).setChannel i .zero).initQueue (.channel i)

/-- What `host_channel_open` makes of a record that is not active. -/
def hostChannelOpen (σ : HostWaits) (i : Fin kernelVmHostChannelPageCount)
    (thread : HostCaller) : HostWaits :=
  if (σ.channels i).active then σ
  else
    (σ.initQueue (.channel i)).setChannel i
      { σ.channels i with
        active := true
        processId := thread.processId
        threadId := thread.id
        channelGeneration := thread.generation
        virtualAddress := kernelVmHostChannelBase + i * hostChannelPageSize }

/-- The thread layer ends a wait: its deadline passed, or the thread was cancelled. -/
def expire (σ : HostWaits) (thread : UInt32) : HostWaits :=
  match σ.asleep thread with
  | none => σ
  | some slot =>
    { σ with
      waiters := Function.update σ.waiters slot ((σ.waiters slot).filter (· ≠ thread))
      asleep := Function.update σ.asleep thread none }

end HostWaits

/-- What can begin where the kernel is idle. -/
inductive HostCall
  | channelWait (process : UInt32) (thread : HostCaller) (address : ℕ) (consumer : UInt32)
      (now deadline : ℕ)
  | streamWait (thread : HostCaller) (i : Fin kernelAudioStreamMax) (now deadline : ℕ)
  | irqService
  | streamEnd (i : Fin kernelAudioStreamMax)
  | streamRelease (i : Fin kernelAudioStreamMax)
  | streamOpen (i : Fin kernelAudioStreamMax) (generation bufferCount : UInt32)
  | channelKill (i : Fin kernelVmHostChannelPageCount)
  | channelClose (process : UInt32) (i : Fin kernelVmHostChannelPageCount)
  | channelOpen (i : Fin kernelVmHostChannelPageCount) (thread : HostCaller)
  | expire (thread : UInt32)

/-- A thread that calls is not asleep. -/
def HostCall.Possible (σ : HostWaits) : HostCall → Prop
  | .channelWait _ thread _ _ _ _ => σ.asleep thread.id = none
  | .streamWait thread _ _ _ => σ.asleep thread.id = none
  | _ => True

def HostWaits.begin (σ : HostWaits) : HostCall → HostWaits
  | .channelWait process thread address consumer now deadline =>
    (σ.hostChannelWait process thread address consumer now deadline).1
  | .streamWait thread i now deadline => (σ.audioStreamWait thread i now deadline).1
  | .irqService => σ.irqService
  | .streamEnd i => σ.audioStreamEnd i
  | .streamRelease i => σ.audioStreamRelease i
  | .streamOpen i generation bufferCount => σ.audioStreamOpen i generation bufferCount
  | .channelKill i => σ.hostChannelKill i
  | .channelClose process i => σ.hostChannelCloseSlot process i
  | .channelOpen i thread => σ.hostChannelOpen i thread
  | .expire thread => σ.expire thread

/-- A step of the system. -/
inductive HostMove
  | call (c : HostCall)
  | goOn (answer : KernelThreadStatus)
  | publishChannel (i : Fin kernelVmHostChannelPageCount)
      (header : Option KernelPlatformHostChannelState)
  | publishStream (i : Fin kernelAudioStreamMax) (header : Option KernelPlatformAudioStreamState)

def HostMove.Possible (σ : HostWaits) : HostMove → Prop
  | .call c => σ.task = .idle ∧ c.Possible σ
  | _ => True

instance (σ : HostWaits) (c : HostCall) : Decidable (c.Possible σ) := by
  cases c <;> unfold HostCall.Possible <;> infer_instance

instance (σ : HostWaits) (m : HostMove) : Decidable (m.Possible σ) := by
  cases m <;> unfold HostMove.Possible <;> infer_instance

def HostWaits.move (σ : HostWaits) : HostMove → HostWaits
  | .call c => σ.begin c
  | .goOn answer => (σ.goOn answer).1
  | .publishChannel i header => σ.publishChannel i header
  | .publishStream i header => σ.publishStream i header

/-- The moves one after the other, where each is possible. -/
def HostWaits.follow (σ : HostWaits) : List HostMove → Option HostWaits
  | [] => some σ
  | m :: moves => if m.Possible σ then (σ.move m).follow moves else none

/-- Nothing is open, nobody waits, nothing is armed. -/
def HostWaits.init : HostWaits where
  channels _ := .zero
  streams _ := ⟨.free, 0, 0⟩
  channelHeader _ := none
  streamHeader _ := none
  waiting _ := false
  waiters _ := []
  asleep _ := none
  armed _ := none
  raised _ := false
  task := .idle

end Astra
