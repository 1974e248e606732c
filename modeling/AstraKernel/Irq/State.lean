import AstraKernel.Handle.Transfer
import AstraKernel.Sync.Step

/-!
# The interrupt endpoints

An interrupt source is routed to an endpoint that a process holds, to a service inside the kernel, or
to nothing. An endpoint keeps the records of its deliveries until its owner acknowledges them, and
sticky events that only a recovery clears. Its state, its flags and the controller's mask of its
source are kept by the same calls.

An endpoint is named by its slot. What the callbacks of a route and the controller answer is given
with a call; of the controller there is which sources it has enabled. Statistics, trace records and
the report of the first corruption are left out.
-/

namespace Astra

open Function

abbrev kernelIrqSourceCount : ℕ := 32
abbrev kernelIrqEndpointMax : ℕ := 32
abbrev kernelIrqRecordDepth : ℕ := 4
abbrev kernelIrqStormBudget : ℕ := 64
abbrev kernelIrqStormWindowCycles : BitVec 64 := 125000
abbrev kernelIrqCommonVector : ℕ := 80

inductive KernelIrqTrigger
  | level | edge
  deriving DecidableEq, Repr

inductive KernelIrqState
  | free | masked | armed | pending | revoking
  deriving DecidableEq, Repr

inductive KernelIrqStatus
  | ok | wouldBlock | closed | invalidArgument | invalidState | noSlot | sourceBusy
  | sequenceMismatch | overflow | storm | deviceError | unclaimed | corrupt
  deriving DecidableEq, Repr

structure KernelIrqRecord where
  timestampHigh : BitVec 32
  timestampLow : BitVec 32
  status : BitVec 32
  sequence : ℕ
  deriving DecidableEq, Repr

/-- The flags of an endpoint. The first three are its sticky events, `KERNEL_IRQ_PUBLIC_FLAGS`. -/
structure KernelIrqFlags where
  overflow : Bool
  storm : Bool
  deviceError : Bool
  masked : Bool
  quiesced : Bool
  adminMasked : Bool
  deviceCompleted : Bool
  deriving DecidableEq, Repr

def KernelIrqFlags.sticky (f : KernelIrqFlags) : Bool :=
  f.overflow || f.storm || f.deviceError

structure KernelIrqEndpoint where
  records : ℕ → KernelIrqRecord
  owner : ℕ
  generation : ℕ
  delivered : ℕ
  acknowledged : ℕ
  dropped : ℕ
  nextSequence : ℕ
  references : ℕ
  source : ℕ
  state : KernelIrqState
  trigger : KernelIrqTrigger
  ipl : ℕ
  vector : ℕ
  head : ℕ
  tail : ℕ
  recordCount : ℕ
  flags : KernelIrqFlags
  consecutive : ℕ
  stormWindowHigh : BitVec 32
  stormWindowLow : BitVec 32

/-- A route; of a callback there is whether it is there. -/
structure KernelIrqRoute where
  endpoint : Option ℕ
  internalService : Bool
  capture : Bool
  complete : Bool
  quiesce : Bool
  trigger : KernelIrqTrigger
  ipl : ℕ
  vector : ℕ
  internalArmed : Bool
  deriving DecidableEq, Repr

/-- `KernelObjectCache` of the endpoints, with the units its allocation site is accounted for. -/
structure IrqCache where
  claimed : ℕ → Bool
  nextHint : ℕ
  live : ℕ
  corrupt : Bool
  units : ℕ

/-- The thread pool, the endpoints and routes over it, and which sources the controller has
enabled. -/
structure IrqState where
  pool : Pool
  endpoint : ℕ → KernelIrqEndpoint
  route : ℕ → KernelIrqRoute
  cache : IrqCache
  revocationPending : ℕ → Bool
  liveEndpoints : ℕ
  revokingEndpoints : ℕ
  poolCorrupt : Bool
  enabled : ℕ → Bool

/-- What the controller and the callbacks answer during a call. A dispatch may mask its source
twice. -/
structure IrqAnswers where
  configure : Bool
  mask : Bool
  maskAgain : Bool
  enable : Bool
  acknowledge : Bool
  capture : Option (BitVec 32)
  complete : Bool
  quiesce : Bool
  service : Bool
  serviceWoken : ℕ
  deriving DecidableEq, Repr

def irqWaiters (n : ℕ) : QueueRef := .object n

def astraU32IncrementSaturating (value : ℕ) : ℕ :=
  if value = uint32Max then value else value + 1

def noIrqFlags : KernelIrqFlags := ⟨false, false, false, false, false, false, false⟩

def noIrqRecord : KernelIrqRecord := ⟨0, 0, 0, 0⟩

/-- What is left of an endpoint that is cleared. -/
def freeIrqEndpoint (generation : ℕ) : KernelIrqEndpoint where
  records _ := noIrqRecord
  owner := 0
  generation := generation
  delivered := 0
  acknowledged := 0
  dropped := 0
  nextSequence := 0
  references := 0
  source := 0
  state := .free
  trigger := .level
  ipl := 0
  vector := 0
  head := 0
  tail := 0
  recordCount := 0
  flags := noIrqFlags
  consecutive := 0
  stormWindowHigh := 0
  stormWindowLow := 0

def noIrqRoute : KernelIrqRoute := ⟨none, false, false, false, false, .level, 0, 0, false⟩

/-- `kernel_irq_pool_init`, with the sources as the platform's reset leaves them. -/
def kernelIrqPoolInit (p : Pool) : IrqState where
  pool := p
  endpoint _ := freeIrqEndpoint 0
  route _ := noIrqRoute
  cache := ⟨fun _ => false, 0, 0, false, 0⟩
  revocationPending _ := false
  liveEndpoints := 0
  revokingEndpoints := 0
  poolCorrupt := false
  enabled _ := false

namespace IrqState

def setEndpoint (s : IrqState) (n : ℕ) (f : KernelIrqEndpoint → KernelIrqEndpoint) : IrqState :=
  { s with endpoint := update s.endpoint n (f (s.endpoint n)) }

def setFlags (s : IrqState) (n : ℕ) (f : KernelIrqFlags → KernelIrqFlags) : IrqState :=
  s.setEndpoint n fun e => { e with flags := f e.flags }

def setRoute (s : IrqState) (source : ℕ) (f : KernelIrqRoute → KernelIrqRoute) : IrqState :=
  { s with route := update s.route source (f (s.route source)) }

def withPool (s : IrqState) (p : Pool) : IrqState :=
  { s with pool := p }

/-- `mark_pool_corrupt`. -/
def corrupted (s : IrqState) : IrqState :=
  { s with poolCorrupt := true }

def initQueue (s : IrqState) (n : ℕ) : IrqState :=
  s.withPool { s.pool with
    waits := s.pool.waits.setQueue (irqWaiters n) fun _ => kernelThreadWaitQueueInit }

/-- `controller_mask`, which has worked when it is answered so. -/
def controllerMask (s : IrqState) (answer : Bool) (source : ℕ) : IrqState :=
  { s with enabled := if answer then update s.enabled source false else s.enabled }

def controllerEnable (s : IrqState) (answer : Bool) (source : ℕ) : IrqState :=
  { s with enabled := if answer then update s.enabled source true else s.enabled }

def clearRoute (s : IrqState) (source : ℕ) : IrqState :=
  s.setRoute source fun _ => noIrqRoute

end IrqState

/-- `active_state`. -/
def irqActiveState : KernelIrqState → Prop
  | .masked | .armed | .pending => True
  | _ => False

instance (state : KernelIrqState) : Decidable (irqActiveState state) :=
  match state with
  | .masked | .armed | .pending => isTrue trivial
  | .free | .revoking => isFalse id

def routeMatches (s : IrqState) (n : ℕ) : Prop :=
  (s.endpoint n).source < kernelIrqSourceCount ∧ (s.route (s.endpoint n).source).endpoint = some n

def routeInUse (s : IrqState) (source : ℕ) : Prop :=
  (s.route source).endpoint ≠ none ∨ (s.route source).internalService = true

def validActiveEndpoint (s : IrqState) (n : ℕ) : Prop :=
  (n < kernelIrqEndpointMax ∧ irqActiveState (s.endpoint n).state ∧ (s.endpoint n).owner ≠ 0
    ∧ (s.endpoint n).generation ≠ 0 ∧ (s.endpoint n).references ≠ 0
    ∧ (s.endpoint n).ipl ≠ 0 ∧ (s.endpoint n).ipl ≤ 7
    ∧ (s.endpoint n).vector = kernelIrqCommonVector
    ∧ (s.endpoint n).head < kernelIrqRecordDepth ∧ (s.endpoint n).tail < kernelIrqRecordDepth
    ∧ (s.endpoint n).recordCount ≤ kernelIrqRecordDepth ∧ (s.endpoint n).nextSequence ≠ 0
    ∧ routeMatches s n)
  ∧ kernelThreadWaitQueueCount s.pool (irqWaiters n) ≠ uint32Max

instance (s : IrqState) (n : ℕ) : Decidable (routeMatches s n) :=
  inferInstanceAs (Decidable (_ ∧ _))

instance (s : IrqState) (source : ℕ) : Decidable (routeInUse s source) :=
  inferInstanceAs (Decidable (_ ∨ _))

instance (s : IrqState) (n : ℕ) : Decidable (validActiveEndpoint s n) :=
  inferInstanceAs (Decidable (_ ∧ _))

/-- The search of `kernel_object_cache_claim`, over `fuel` slots from `offset` past the hint on. -/
def claimIrqSlot (c : IrqCache) : ℕ → ℕ → Option ℕ
  | 0, _ => none
  | fuel + 1, offset =>
    let candidate := c.nextHint + offset
    let candidate :=
      if kernelIrqEndpointMax ≤ candidate then candidate - kernelIrqEndpointMax else candidate
    if c.claimed candidate then claimIrqSlot c fuel (offset + 1) else some candidate

/-- `kernel_object_cache_claim`, and the slot; `attempt` is the answer of
`kernel_allocation_attempt`. -/
def kernelObjectCacheClaim (c : IrqCache) (attempt : Bool) :
    KernelObjectCacheStatus × IrqCache × ℕ :=
  if c.corrupt then (.corrupt, c, 0)
  else if attempt = false then (.unavailable, c, 0)
  else
    match claimIrqSlot c kernelIrqEndpointMax 0 with
    | none => (.unavailable, c, 0)
    | some slot =>
      let next := if slot + 1 = kernelIrqEndpointMax then 0 else slot + 1
      if c.units = uint32Max then (.corrupt, { c with nextHint := next, corrupt := true }, 0)
      else
        (.ok, { c with
          claimed := update c.claimed slot true
          nextHint := next
          live := c.live + 1
          units := c.units + 1 }, slot)

def kernelObjectCacheRelease (c : IrqCache) (slot : ℕ) : KernelObjectCacheStatus × IrqCache :=
  if c.corrupt ∨ c.live = 0 ∨ c.claimed slot = false then (.corrupt, c)
  else if c.units = 0 then (.corrupt, { c with corrupt := true })
  else
    (.ok, { c with
      claimed := update c.claimed slot false
      nextHint := if slot < c.nextHint then slot else c.nextHint
      live := c.live - 1
      units := c.units - 1 })

end Astra
