import AstraKernel.Irq.Object

/-!
# Dispatching, reading and acknowledging

A claimed dispatch comes with its source masked by the claim. One with work becomes a record of its
endpoint and wakes the waiters; one without is counted, and a flood of them quarantines the
endpoint. A level-triggered source stays masked until its last record is acknowledged.
-/

namespace Astra

open Function

def quarantineUnclaimed (s : IrqState) (source : ℕ) (a : IrqAnswers) :
    KernelIrqStatus × IrqState :=
  (if a.mask ∧ a.acknowledge then .unclaimed else .deviceError, s.controllerMask a.mask source)

def quarantineMasked (s : IrqState) (n : ℕ) (revoking : Bool) (a : IrqAnswers) :
    KernelIrqStatus × IrqState :=
  (if ¬ (a.mask ∧ a.acknowledge) then .deviceError else if revoking then .closed else .invalidState,
    s.controllerMask a.mask (s.endpoint n).source)

def noteStormDelivery (e : KernelIrqEndpoint) (timestamp : BitVec 64) : KernelIrqEndpoint :=
  let windowStart : BitVec 64 := e.stormWindowHigh ++ e.stormWindowLow
  if e.consecutive = 0 ∨ timestamp < windowStart
      ∨ kernelIrqStormWindowCycles < timestamp - windowStart then
    { e with
      stormWindowHigh := timestamp.extractLsb' 32 32
      stormWindowLow := timestamp.extractLsb' 0 32
      consecutive := 1 }
  else if e.consecutive ≠ 255 then { e with consecutive := e.consecutive + 1 }
  else e

def IrqState.setInternalArmed (s : IrqState) (source : ℕ) (armed : Bool) : IrqState :=
  s.setRoute source fun r => { r with internalArmed := armed }

/-- `dispatch_internal` from the service on. -/
def serveInternal (s : IrqState) (source : ℕ) (sourceClaimed : Bool) (a : IrqAnswers) :
    KernelIrqStatus × IrqState × ℕ :=
  if a.service = false ∨ a.acknowledge = false then
    (.deviceError, (s.setInternalArmed source false).controllerMask a.maskAgain source,
      a.serviceWoken)
  else if (s.route source).trigger = .level ∨ sourceClaimed then
    if a.enable = false then (.deviceError, s, a.serviceWoken)
    else
      (.ok, (s.controllerEnable a.enable source).setInternalArmed source true, a.serviceWoken)
  else (.ok, s.setInternalArmed source true, a.serviceWoken)

/-- `dispatch_internal`, and the threads that the service has woken. -/
def dispatchInternal (s : IrqState) (source vector : ℕ) (sourceClaimed : Bool) (a : IrqAnswers) :
    KernelIrqStatus × IrqState × ℕ :=
  let r := s.route source
  if r.vector ≠ vector then
    (.deviceError, (s.setInternalArmed source false).controllerMask a.mask source, 0)
  else if r.internalArmed = false then
    (if a.acknowledge = false ∨ a.mask = false then .deviceError else .invalidState,
      s.controllerMask a.mask source, 0)
  else if r.trigger = .level then
    let masked := if sourceClaimed then s else s.controllerMask a.mask source
    if sourceClaimed = false ∧ a.mask = false then
      (.deviceError, masked.setInternalArmed source false, 0)
    else serveInternal (masked.setInternalArmed source false) source sourceClaimed a
  else serveInternal s source sourceClaimed a

/-- The branch of `dispatch_endpoint` for a capture that has found no work. -/
def dispatchEmpty (s : IrqState) (n source : ℕ) (timestamp : BitVec 64) (a : IrqAnswers) :
    KernelIrqStatus × IrqState :=
  let level := (s.endpoint n).trigger = .level
  let s := if level then
      (s.setFlags n fun f => { f with masked := false }).controllerEnable a.enable source
    else s
  if a.acknowledge = false ∨ (level ∧ a.enable = false) then
    let s := s.setEndpoint n fun e => { e with
      flags := { e.flags with deviceError := true, masked := true }
      state := .pending }
    (.deviceError, s.controllerMask a.maskAgain source)
  else
    let s := s.setEndpoint n fun e => noteStormDelivery e timestamp
    if kernelIrqStormBudget ≤ (s.endpoint n).consecutive then
      (.storm, (s.setFlags n fun f => { f with storm := true, masked := true }).controllerMask
        a.maskAgain source)
    else (.unclaimed, s)

/-- The branch of `dispatch_endpoint` for a record there is no room for. -/
def dispatchOverflow (s : IrqState) (n source : ℕ) (a : IrqAnswers) :
    KernelIrqStatus × IrqState × ℕ :=
  let s := s.setEndpoint n fun e => { e with
    dropped := astraU32IncrementSaturating e.dropped
    flags := { e.flags with overflow := true, masked := true }
    state := .pending }
  match (s.controllerMask a.maskAgain source).wakeWaiters n astraSyscallOk with
  | (true, s, woken) => (.overflow, s, woken)
  | (false, s, _) => (.corrupt, s.corrupted, 0)

/-- An endpoint with a record more. -/
def KernelIrqEndpoint.queued (e : KernelIrqEndpoint) (timestamp : BitVec 64) (status : BitVec 32) :
    KernelIrqEndpoint :=
  let record : KernelIrqRecord :=
    ⟨timestamp.extractLsb' 32 32, timestamp.extractLsb' 0 32, status, e.nextSequence⟩
  { e with
    records := update e.records e.tail record
    nextSequence := kernelGenerationNext e.nextSequence
    tail := (e.tail + 1) % kernelIrqRecordDepth
    recordCount := e.recordCount + 1
    delivered := astraU32IncrementSaturating e.delivered }

/-- The end of `dispatch_endpoint`: the record is queued, and the waiters are woken. -/
def dispatchRecord (s : IrqState) (n source : ℕ) (timestamp : BitVec 64) (status : BitVec 32)
    (sourceClaimed : Bool) (a : IrqAnswers) : KernelIrqStatus × IrqState × ℕ :=
  let s := s.setEndpoint n fun e =>
    { noteStormDelivery (e.queued timestamp status) timestamp with state := .pending }
  let s := if kernelIrqStormBudget ≤ (s.endpoint n).consecutive then
      (s.setFlags n fun f => { f with storm := true, masked := true }).controllerMask a.maskAgain
        source
    else s
  match s.wakeWaiters n astraSyscallOk with
  | (false, s, _) => (.corrupt, s.corrupted, 0)
  | (true, s, woken) =>
    let e := s.endpoint n
    let reEnable := sourceClaimed ∧ e.trigger = .edge ∧ e.flags.storm = false
      ∧ e.flags.masked = false
    if reEnable ∧ a.enable = false then
      (.deviceError, s.setEndpoint n fun e => { e with
        flags := { e.flags with deviceError := true, masked := true }
        state := .pending }, woken)
    else
      (if e.flags.storm then .storm else .ok,
        if reEnable then s.controllerEnable a.enable source else s, woken)

/-- `dispatch_endpoint` from the masking of a level-triggered source on. -/
def dispatchArmed (s : IrqState) (n source : ℕ) (timestamp : BitVec 64) (sourceClaimed : Bool)
    (a : IrqAnswers) : KernelIrqStatus × IrqState × ℕ :=
  let level := (s.endpoint n).trigger = .level
  if level ∧ sourceClaimed = false ∧ a.mask = false then
    (.deviceError, s.setFlags n fun f => { f with deviceError := true }, 0)
  else
    let s := if level then
        (if sourceClaimed then s else s.controllerMask a.mask source).setFlags n fun f =>
          { f with masked := true }
      else s
    match (s.route source).capture, a.capture with
    | true, none =>
      let r := dispatchEmpty s n source timestamp a
      (r.1, r.2, 0)
    | captures, work =>
      if ¬ level ∧ a.acknowledge = false then
        let s := s.setEndpoint n fun e => { e with
          flags := { e.flags with deviceError := true, masked := true }
          state := .pending }
        (.deviceError, s.controllerMask a.maskAgain source, 0)
      else if (s.endpoint n).recordCount = kernelIrqRecordDepth then dispatchOverflow s n source a
      else
        let status := if captures then work.getD 0 else 0
        dispatchRecord s n source timestamp status sourceClaimed a

def dispatchEndpoint (s : IrqState) (n source vector : ℕ) (timestamp : BitVec 64)
    (sourceClaimed : Bool) (a : IrqAnswers) : KernelIrqStatus × IrqState × ℕ :=
  let e := s.endpoint n
  if ¬ validActiveEndpoint s n then
    if e.state = .revoking then
      let r := quarantineMasked s n true a
      (r.1, r.2, 0)
    else (.corrupt, s.corrupted, 0)
  else if vector ≠ e.vector then
    let s := s.setEndpoint n fun e => { e with
      flags := { e.flags with deviceError := true, masked := true }
      state := .pending }
    (.deviceError, s.controllerMask a.mask source, 0)
  else if e.state = .masked ∨ e.flags.masked then
    let r := quarantineMasked s n false a
    (r.1, r.2, 0)
  else dispatchArmed s n source timestamp sourceClaimed a

def dispatchCommon (s : IrqState) (source vector : ℕ) (timestamp : BitVec 64)
    (sourceClaimed : Bool) (a : IrqAnswers) : KernelIrqStatus × IrqState × ℕ :=
  if kernelIrqSourceCount ≤ source then (.invalidArgument, s, 0)
  else if s.poolCorrupt then (.corrupt, s, 0)
  else
    match (s.route source).endpoint with
    | some n => dispatchEndpoint s n source vector timestamp sourceClaimed a
    | none =>
      if (s.route source).internalService then dispatchInternal s source vector sourceClaimed a
      else
        let r := quarantineUnclaimed s source a
        (r.1, r.2, 0)

/-- `kernel_irq_dispatch`, but for its trace record. -/
def kernelIrqDispatch (s : IrqState) (source vector : ℕ) (timestamp : BitVec 64)
    (a : IrqAnswers) : KernelIrqStatus × IrqState × ℕ :=
  dispatchCommon s source vector timestamp false a

/-- `kernel_irq_dispatch_claimed_traced`, but for its trace record. -/
def kernelIrqDispatchClaimed (s : IrqState) (source vector : ℕ) (timestamp : BitVec 64)
    (a : IrqAnswers) : KernelIrqStatus × IrqState × ℕ :=
  dispatchCommon s source vector timestamp true a

/-- What `kernel_irq_read` answers when there is no record. -/
def stickyStatus (f : KernelIrqFlags) : KernelIrqStatus :=
  if f.deviceError then .deviceError
  else if f.storm then .storm
  else if f.overflow then .overflow
  else .wouldBlock

/-- `kernel_irq_read`: its status, the record and the sticky events. -/
def kernelIrqRead (s : IrqState) (n : ℕ) : KernelIrqStatus × KernelIrqRecord × KernelIrqFlags :=
  let e := s.endpoint n
  if n < kernelIrqEndpointMax ∧ e.state = .revoking then (.closed, noIrqRecord, noIrqFlags)
  else if ¬ validActiveEndpoint s n then (.invalidArgument, noIrqRecord, noIrqFlags)
  else
    let events := { noIrqFlags with
      overflow := e.flags.overflow
      storm := e.flags.storm
      deviceError := e.flags.deviceError }
    if e.recordCount ≠ 0 then (.ok, e.records e.head, events)
    else (stickyStatus e.flags, noIrqRecord, events)

/-- An endpoint with its head record gone. -/
def KernelIrqEndpoint.retired (e : KernelIrqEndpoint) : KernelIrqEndpoint :=
  { e with
    records := update e.records e.head noIrqRecord
    flags := { e.flags with deviceCompleted := false }
    head := (e.head + 1) % kernelIrqRecordDepth
    recordCount := e.recordCount - 1
    consecutive := 0
    acknowledged := astraU32IncrementSaturating e.acknowledged }

/-- The end of `kernel_irq_ack`, from the last record of an endpoint on. -/
def ackLast (s : IrqState) (n : ℕ) (a : IrqAnswers) : KernelIrqStatus × IrqState :=
  let s := s.setEndpoint n fun e => { e with head := 0, tail := 0 }
  let e := s.endpoint n
  if e.flags.sticky then
    (if e.flags.deviceError then .deviceError else if e.flags.storm then .storm else .overflow,
      s.setEndpoint n fun e => { e with state := .masked, flags := { e.flags with masked := true } })
  else if e.flags.adminMasked then (.ok, s.setEndpoint n fun e => { e with state := .masked })
  else if e.flags.masked ∧ a.enable = false then
    (.deviceError, s.setEndpoint n fun e => { e with
      flags := { e.flags with deviceError := true, masked := true }
      state := .masked })
  else
    let s := if e.flags.masked then
        (s.controllerEnable a.enable e.source).setFlags n fun f => { f with masked := false }
      else s
    (.ok, s.setEndpoint n fun e => { e with state := .armed })

/-- `kernel_irq_ack` from the completion of the device on. -/
def ackCompleted (s : IrqState) (n : ℕ) (a : IrqAnswers) : KernelIrqStatus × IrqState :=
  if (s.endpoint n).trigger = .level ∧ a.acknowledge = false then
    (.deviceError, s.setFlags n fun f => { f with deviceError := true, masked := true })
  else
    let s := s.setEndpoint n fun e => e.retired
    if (s.endpoint n).recordCount ≠ 0 then
      (.ok, s.setEndpoint n fun e => { e with state := .pending })
    else ackLast s n a

def kernelIrqAck (s : IrqState) (n sequence : ℕ) (a : IrqAnswers) : KernelIrqStatus × IrqState :=
  let e := s.endpoint n
  if n < kernelIrqEndpointMax ∧ e.state = .revoking then (.closed, s)
  else if ¬ validActiveEndpoint s n ∨ sequence = 0 then (.invalidArgument, s)
  else if e.recordCount = 0 then (.wouldBlock, s)
  else if (e.records e.head).sequence ≠ sequence then (.sequenceMismatch, s)
  else if e.flags.deviceCompleted = false ∧ (s.route e.source).complete ∧ a.complete = false then
    let s := s.setFlags n fun f => { f with deviceError := true, masked := true }
    (.deviceError, s.controllerMask a.mask e.source)
  else ackCompleted (s.setFlags n fun f => { f with deviceCompleted := true }) n a

/-- `kernel_irq_prepare_wait`, and the spec to wait on. -/
def kernelIrqPrepareWait (s : IrqState) (n : ℕ) : KernelIrqStatus × KernelThreadWaitSpec :=
  let e := s.endpoint n
  if kernelIrqEndpointMax ≤ n then (.invalidArgument, ⟨none, 0⟩)
  else if e.state = .revoking then (.closed, ⟨none, 0⟩)
  else if ¬ validActiveEndpoint s n then (.corrupt, ⟨none, 0⟩)
  else if e.recordCount ≠ 0 ∨ e.flags.sticky then (.ok, ⟨none, 0⟩)
  else
    let spec : KernelThreadWaitSpec :=
      ⟨some (irqWaiters n), kernelThreadWaitQueueSequence s.pool (irqWaiters n)⟩
    (if spec.sequence = 0 then .corrupt else .wouldBlock, spec)

def kernelIrqCommitWait (s : IrqState) (n : ℕ) : KernelIrqStatus :=
  if ¬ validActiveEndpoint s n then .invalidArgument
  else if kernelThreadWaitQueueCount s.pool (irqWaiters n) ≠ 0 then .ok
  else .invalidState

end Astra
