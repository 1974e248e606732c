import AstraKernel.Irq.State

/-!
# Binding, masking and revoking endpoints

An endpoint is bound masked, and armed and masked by its owner. A revoked one takes no more
deliveries, and wakes its waiters; it is quiesced when its device has stopped, and freed when its
last reference is gone as well.
-/

namespace Astra

open Function

structure KernelIrqBinding where
  capture : Bool
  complete : Bool
  quiesce : Bool
  source : ℕ
  trigger : KernelIrqTrigger
  ipl : ℕ
  vector : ℕ
  deriving DecidableEq, Repr

structure KernelIrqInternalBinding where
  service : Bool
  source : ℕ
  trigger : KernelIrqTrigger
  ipl : ℕ
  vector : ℕ
  deriving DecidableEq, Repr

/-- `kernel_thread_wake_all` of an endpoint's waiters, whether it worked and how many it woke. -/
def IrqState.wakeWaiters (s : IrqState) (n result : ℕ) : Bool × IrqState × ℕ :=
  match kernelThreadWakeAll s.pool (irqWaiters n) result with
  | ((.ok, p), woken) => (true, s.withPool p, woken)
  | ((_, p), _) => (false, s.withPool p, 0)

def finishQuiesce (s : IrqState) (n : ℕ) (a : IrqAnswers) : Bool × IrqState :=
  let e := s.endpoint n
  if kernelIrqEndpointMax ≤ n ∨ e.state ≠ .revoking ∨ kernelIrqSourceCount ≤ e.source then
    (false, s)
  else if e.flags.quiesced then (true, s)
  else if (s.route e.source).endpoint ≠ some n then (false, s)
  else if a.mask = false then (false, s)
  else
    let s := (s.controllerMask a.mask e.source).setFlags n fun f => { f with masked := true }
    if (s.route e.source).quiesce ∧ a.quiesce = false then (false, s)
    else if a.acknowledge = false then (false, s)
    else
      let s := s.setFlags n fun f => { f with quiesced := true }
      (true, { s with revocationPending := update s.revocationPending n false }.clearRoute e.source)

def releaseEndpoint (s : IrqState) (n : ℕ) : Bool × IrqState :=
  let e := s.endpoint n
  if kernelIrqEndpointMax ≤ n ∨ e.state ≠ .revoking ∨ e.references ≠ 0 ∨ e.flags.quiesced = false
      ∨ kernelIrqSourceCount ≤ e.source ∨ (s.route e.source).endpoint ≠ none
      ∨ kernelThreadWaitQueueCount s.pool (irqWaiters n) ≠ 0 then
    (false, s)
  else
    let s := (s.setEndpoint n fun e => freeIrqEndpoint e.generation).initQueue n
    match kernelObjectCacheRelease s.cache n with
    | (.ok, cache) =>
      let s := { s with cache := cache }
      if s.liveEndpoints = 0 ∨ s.revokingEndpoints = 0 then (false, s)
      else
        (true, { s with
          liveEndpoints := s.liveEndpoints - 1
          revokingEndpoints := s.revokingEndpoints - 1 })
    | (_, cache) => (false, { s with cache := cache })

def finalizeIfPossible (s : IrqState) (n : ℕ) (a : IrqAnswers) : KernelIrqStatus × IrqState :=
  match finishQuiesce s n a with
  | (false, s) => (.deviceError, s)
  | (true, s) =>
    if (s.endpoint n).references = 0 then
      match releaseEndpoint s n with
      | (true, s) => (.ok, s)
      | (false, s) => (.corrupt, s.corrupted)
    else (.ok, s)

def kernelIrqBindInternal (s : IrqState) (binding : KernelIrqInternalBinding) (a : IrqAnswers) :
    KernelIrqStatus × IrqState :=
  if binding.service = false ∨ kernelIrqSourceCount ≤ binding.source ∨ binding.ipl = 0
      ∨ 7 < binding.ipl ∨ binding.vector ≠ kernelIrqCommonVector then
    (.invalidArgument, s)
  else if s.poolCorrupt then (.corrupt, s)
  else if routeInUse s binding.source then (.sourceBusy, s)
  else
    let s := s.controllerMask a.mask binding.source
    if a.configure = false ∨ a.mask = false then (.deviceError, s)
    else
      (.ok, s.setRoute binding.source fun r => { r with
        internalService := true
        trigger := binding.trigger
        ipl := binding.ipl
        vector := binding.vector
        internalArmed := false })

def kernelIrqArmInternal (s : IrqState) (source : ℕ) (a : IrqAnswers) :
    KernelIrqStatus × IrqState :=
  if kernelIrqSourceCount ≤ source then (.invalidArgument, s)
  else if (s.route source).endpoint ≠ none ∨ (s.route source).internalService = false then
    (.invalidArgument, s)
  else if (s.route source).internalArmed then (.invalidState, s)
  else if a.enable = false then (.deviceError, s)
  else
    (.ok, (s.controllerEnable a.enable source).setRoute source fun r => { r with
      internalArmed := true })

def kernelIrqMaskInternal (s : IrqState) (source : ℕ) (a : IrqAnswers) :
    KernelIrqStatus × IrqState :=
  if kernelIrqSourceCount ≤ source then (.invalidArgument, s)
  else if (s.route source).endpoint ≠ none ∨ (s.route source).internalService = false then
    (.invalidArgument, s)
  else if a.mask = false then (.deviceError, s)
  else
    (.ok, (s.controllerMask a.mask source).setRoute source fun r => { r with
      internalArmed := false })

/-- The endpoint that `kernel_irq_bind` fills its slot with. -/
def newIrqEndpoint (generation owner : ℕ) (binding : KernelIrqBinding) : KernelIrqEndpoint :=
  { freeIrqEndpoint generation with
    owner := owner
    nextSequence := 1
    references := 1
    source := binding.source
    state := .masked
    trigger := binding.trigger
    ipl := binding.ipl
    vector := binding.vector
    flags := { noIrqFlags with masked := true, adminMasked := true } }

/-- `kernel_irq_bind` from the claimed slot on. -/
def bindSlot (s : IrqState) (n owner : ℕ) (binding : KernelIrqBinding) (a : IrqAnswers) :
    KernelIrqStatus × IrqState × Option ℕ :=
  if (s.endpoint n).state ≠ .free then (.corrupt, s.corrupted, none)
  else
    let generation := kernelGenerationNext (s.endpoint n).generation
    let s := (s.setEndpoint n fun _ => newIrqEndpoint generation owner binding).initQueue n
    let s := s.controllerMask a.mask binding.source
    if a.configure = false ∨ a.mask = false then
      let s := (s.setEndpoint n fun _ => freeIrqEndpoint generation).initQueue n
      match kernelObjectCacheRelease s.cache n with
      | (.ok, cache) =>
        (if s.poolCorrupt then .corrupt else .deviceError, { s with cache := cache }, none)
      | (_, cache) => (.corrupt, { s with cache := cache }.corrupted, none)
    else
      let s := s.setRoute binding.source fun r => { r with
        endpoint := some n
        capture := binding.capture
        complete := binding.complete
        quiesce := binding.quiesce }
      (.ok, { s with liveEndpoints := s.liveEndpoints + 1 }, some n)

/-- `kernel_irq_bind`, and the endpoint; `attempt` is the answer of the allocator. -/
def kernelIrqBind (s : IrqState) (owner : ℕ) (binding : KernelIrqBinding) (attempt : Bool)
    (a : IrqAnswers) : KernelIrqStatus × IrqState × Option ℕ :=
  if owner = 0 ∨ kernelIrqSourceCount ≤ binding.source ∨ binding.ipl = 0 ∨ 7 < binding.ipl
      ∨ binding.vector ≠ kernelIrqCommonVector then
    (.invalidArgument, s, none)
  else if s.poolCorrupt then (.corrupt, s, none)
  else if routeInUse s binding.source then (.sourceBusy, s, none)
  else
    match kernelObjectCacheClaim s.cache attempt with
    | (.unavailable, cache, _) => (.noSlot, { s with cache := cache }, none)
    | (.corrupt, cache, _) => (.corrupt, { s with cache := cache }.corrupted, none)
    | (.ok, cache, n) => bindSlot { s with cache := cache } n owner binding a

def kernelIrqHandleRetain (s : IrqState) (n : ℕ) : Bool × IrqState :=
  if ¬ validActiveEndpoint s n ∨ (s.endpoint n).references = 65535 then (false, s)
  else (true, s.setEndpoint n fun e => { e with references := e.references + 1 })

/-- `kernel_irq_revoke`, and the threads woken. -/
def kernelIrqRevoke (s : IrqState) (n : ℕ) (a : IrqAnswers) : KernelIrqStatus × IrqState × ℕ :=
  if kernelIrqEndpointMax ≤ n then (.invalidArgument, s, 0)
  else if (s.endpoint n).state = .free then (.invalidState, s, 0)
  else if (s.endpoint n).state = .revoking then (.ok, s, 0)
  else if ¬ validActiveEndpoint s n then (.corrupt, s.corrupted, 0)
  else
    let s := s.setEndpoint n fun e => { e with
      state := .revoking
      recordCount := 0
      head := 0
      tail := 0
      flags := { e.flags with masked := true } }
    let s := { s with
      revocationPending := update s.revocationPending n true
      revokingEndpoints := s.revokingEndpoints + 1 }
    let s := s.controllerMask a.mask (s.endpoint n).source
    match s.wakeWaiters n astraSyscallPeerDead with
    | (false, s, _) => (.corrupt, s.corrupted, 0)
    | (true, s, woken) => (if a.mask then .ok else .deviceError, s, woken)

def kernelIrqHandleRelease (s : IrqState) (n : ℕ) (a : IrqAnswers) : IrqState :=
  if kernelIrqEndpointMax ≤ n ∨ (s.endpoint n).state = .free ∨ (s.endpoint n).references = 0 then
    s.corrupted
  else if 1 < (s.endpoint n).references then
    s.setEndpoint n fun e => { e with references := e.references - 1 }
  else
    let revoked :=
      if (s.endpoint n).state ≠ .revoking then kernelIrqRevoke s n a else (.ok, s, 0)
    if revoked.1 = .corrupt then revoked.2.1.corrupted
    else
      let s := revoked.2.1.setEndpoint n fun e => { e with references := 0 }
      if (s.endpoint n).flags.quiesced then
        match releaseEndpoint s n with
        | (true, s) => s
        | (false, s) => s.corrupted
      else s

def kernelIrqAbandonUnpublished (s : IrqState) (n : ℕ) (a : IrqAnswers) : IrqState :=
  if ¬ validActiveEndpoint s n ∨ (s.endpoint n).references ≠ 1 ∨ (s.endpoint n).recordCount ≠ 0
      ∨ kernelThreadWaitQueueCount s.pool (irqWaiters n) ≠ 0 then
    s.corrupted
  else kernelIrqHandleRelease s n a

def kernelIrqArm (s : IrqState) (n : ℕ) (a : IrqAnswers) : KernelIrqStatus × IrqState :=
  let e := s.endpoint n
  if n < kernelIrqEndpointMax ∧ e.state = .revoking then (.closed, s)
  else if ¬ validActiveEndpoint s n then (.invalidArgument, s)
  else if e.state ≠ .masked ∨ e.recordCount ≠ 0 ∨ e.flags.sticky then (.invalidState, s)
  else if a.enable = false then
    (.deviceError, s.setFlags n fun f => { f with deviceError := true })
  else
    (.ok, (s.controllerEnable a.enable e.source).setEndpoint n fun e => { e with
      flags := { e.flags with masked := false, adminMasked := false }
      state := .armed })

def kernelIrqMask (s : IrqState) (n : ℕ) (a : IrqAnswers) : KernelIrqStatus × IrqState :=
  let e := s.endpoint n
  if n < kernelIrqEndpointMax ∧ e.state = .revoking then (.closed, s)
  else if ¬ validActiveEndpoint s n then (.invalidArgument, s)
  else if a.mask = false then
    (.deviceError, s.setFlags n fun f => { f with deviceError := true })
  else
    (.ok, (s.controllerMask a.mask e.source).setEndpoint n fun e => { e with
      flags := { e.flags with masked := true, adminMasked := true }
      state := if e.recordCount = 0 then .masked else .pending })

def kernelIrqRecover (s : IrqState) (n : ℕ) (a : IrqAnswers) : KernelIrqStatus × IrqState :=
  let e := s.endpoint n
  if n < kernelIrqEndpointMax ∧ e.state = .revoking then (.closed, s)
  else if ¬ validActiveEndpoint s n then (.invalidArgument, s)
  else if e.recordCount ≠ 0 then (.invalidState, s)
  else
    kernelIrqArm (s.setEndpoint n fun e => { e with
      flags := { e.flags with overflow := false, storm := false, deviceError := false }
      consecutive := 0
      state := .masked }) n a

/-- The loop of `kernel_irq_owner_died`: its status, the endpoints revoked and the threads woken. -/
def ownerDiedEndpoints (owner : ℕ) (a : ℕ → IrqAnswers) :
    List ℕ → IrqState → KernelIrqStatus → ℕ → ℕ → KernelIrqStatus × IrqState × ℕ × ℕ
  | [], s, result, revoked, woken => (result, s, revoked, woken)
  | n :: slots, s, result, revoked, woken =>
    if ¬ irqActiveState (s.endpoint n).state ∨ (s.endpoint n).owner ≠ owner then
      ownerDiedEndpoints owner a slots s result revoked woken
    else
      match kernelIrqRevoke s n (a n) with
      | (.corrupt, s, _) => (.corrupt, s, 0, 0)
      | (status, s, endpointWoken) =>
        ownerDiedEndpoints owner a slots s (if status = .deviceError then status else result)
          (revoked + 1) (woken + endpointWoken)

def kernelIrqOwnerDied (s : IrqState) (owner : ℕ) (a : ℕ → IrqAnswers) :
    KernelIrqStatus × IrqState × ℕ × ℕ :=
  if owner = 0 then (.invalidArgument, s, 0, 0)
  else ownerDiedEndpoints owner a (List.range kernelIrqEndpointMax) s .ok 0 0

/-- The loop of `kernel_irq_service_revocations`: its status and the endpoints completed. -/
def serviceRevocations (batchLimit : ℕ) (a : ℕ → IrqAnswers) :
    List ℕ → IrqState → KernelIrqStatus → ℕ → ℕ → KernelIrqStatus × IrqState × ℕ
  | [], s, result, _, completed => (result, s, completed)
  | n :: slots, s, result, serviced, completed =>
    if batchLimit ≤ serviced then (result, s, completed)
    else if (s.endpoint n).state ≠ .revoking ∨ (s.endpoint n).flags.quiesced then
      serviceRevocations batchLimit a slots s result serviced completed
    else
      match finalizeIfPossible s n (a n) with
      | (.corrupt, s) => (.corrupt, s, completed)
      | (.deviceError, s) =>
        serviceRevocations batchLimit a slots s .deviceError (serviced + 1) completed
      | (_, s) => serviceRevocations batchLimit a slots s result (serviced + 1) (completed + 1)

def kernelIrqServiceRevocations (s : IrqState) (batchLimit : ℕ) (a : ℕ → IrqAnswers) :
    KernelIrqStatus × IrqState × ℕ :=
  if batchLimit = 0 then (.invalidArgument, s, 0)
  else serviceRevocations batchLimit a (List.range kernelIrqEndpointMax) s .ok 0 0

end Astra
