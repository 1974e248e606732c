import AstraKernel.Port.State

/-!
# The endpoints of a port

A port whose last sender has gone takes no more messages; one whose receiver has gone is closed, and
its messages are discarded. The handles of a discarded message are released, which may close other
ports: the loop that discards is then interrupted, and goes on when the callbacks have returned.
-/

namespace Astra

open Function

/-- What the allocator grants for one record: the attempt, the frames of a leaf if it takes a new
one, and the unit it is accounted as. -/
structure RecordGrant where
  attempt : Bool
  leaf : Bool
  unit : Bool
  deriving DecidableEq, Repr

def portLeafFrames : ℕ := (portLeafEntries * 80 + 4095) / 4096

def messageLeafFrames : ℕ := (messageLeafEntries * 2096 + 4095) / 4096

namespace PortState

/-- The entries of a new leaf of ports. -/
def addPortLeaf (s : PortState) (leafIndex : ℕ) : PortState :=
  let inLeaf (n : ℕ) : Bool := n < kernelPortMax ∧ n / portLeafEntries = leafIndex
  { s with
    port := fun n => if inLeaf n then freePortRecord 0 else s.port n
    portDirectory := update s.portDirectory leafIndex true
    portBackedLimit := max s.portBackedLimit (min ((leafIndex + 1) * portLeafEntries) kernelPortMax)
    portMetadataUnits := s.portMetadataUnits + portLeafFrames
    pool := { s.pool with waits := { s.pool.waits with
      queue := fun q =>
        match q with
        | .object m => if inLeaf (m / 2) then kernelThreadWaitQueueInit else s.pool.waits.queue q
        | _ => s.pool.waits.queue q } } }

/-- `ensure_port_leaf`; `memory` is whether the frames of a new leaf are granted. -/
def ensurePortLeaf (s : PortState) (slot : ℕ) (memory : Bool) : Bool × PortState :=
  let leafIndex := slot / portLeafEntries
  if s.portDirectory leafIndex then (true, s)
  else if memory then (true, s.addPortLeaf leafIndex)
  else (false, s)

/-- The entries of a new leaf of messages. -/
def addMessageLeaf (s : PortState) (leafIndex : ℕ) : PortState :=
  let inLeaf (m : ℕ) : Bool := m < kernelPortMessageMax ∧ m / messageLeafEntries = leafIndex
  { s with
    message := fun m => if inLeaf m then resetMessageMetadata 0 .free else s.message m
    messageDirectory := update s.messageDirectory leafIndex true
    messageBackedLimit :=
      max s.messageBackedLimit (min ((leafIndex + 1) * messageLeafEntries) kernelPortMessageMax)
    messageMetadataUnits := s.messageMetadataUnits + messageLeafFrames }

def ensureMessageLeaf (s : PortState) (slot : ℕ) (memory : Bool) : Bool × PortState :=
  let leafIndex := slot / messageLeafEntries
  if s.messageDirectory leafIndex then (true, s)
  else if memory then (true, s.addMessageLeaf leafIndex)
  else (false, s)

/-- `wake_one`, whether it worked, and the thread woken. -/
def wakeOne (s : PortState) (queue : QueueRef) (result : ℕ) : Bool × PortState × Option Slot :=
  match kernelThreadWakeOne s.pool queue result with
  | ((.noRunnable, p), _) => (true, s.withPool p, none)
  | ((.ok, p), some t) => (true, s.withPool p, some t)
  | ((_, p), _) => (false, s.withPool p, none)

/-- `wake_all`, whether it worked and how many it woke. -/
def wakeAll (s : PortState) (queue : QueueRef) (result : ℕ) : Bool × PortState × ℕ :=
  match kernelThreadWakeAll s.pool queue result with
  | ((.ok, p), woken) => (true, s.withPool p, woken)
  | ((_, p), _) => (false, s.withPool p, 0)

/-- Two calls of `wake_all`, the second when the first has worked. -/
def wakeBoth (s : PortState) (queue queue' : QueueRef) (result result' : ℕ) :
    Bool × PortState × ℕ :=
  match s.wakeAll queue result with
  | (true, s, woken) =>
    match s.wakeAll queue' result' with
    | (ok, s, woken') => (ok, s, woken + woken')
  | (false, s, woken) => (false, s, woken)

end PortState

/-- The search for a free port, from `offset` past `next_port_slot` on. -/
def claimPortSlot (memory : Bool) : ℕ → PortState → ℕ → Option ℕ × PortState
  | 0, s, _ => (none, s)
  | fuel + 1, s, offset =>
    let slot := s.nextPortSlot + offset
    let slot := if kernelPortMax ≤ slot then slot - kernelPortMax else slot
    match s.ensurePortLeaf slot memory with
    | (false, s) => (none, s)
    | (true, s) =>
      if (s.port slot).state = .free then
        (some slot, { s with nextPortSlot := if slot + 1 = kernelPortMax then 0 else slot + 1 })
      else claimPortSlot memory fuel s (offset + 1)

/-- The port that `kernel_port_create` fills its slot with. -/
def newPort (generation owner maximumMessages maximumBytes : ℕ) : KernelPort :=
  { freePortRecord generation with
    owner := owner
    references := 2
    sendReferences := 1
    receiveReferences := 1
    maximumMessages := maximumMessages
    maximumBytes := maximumBytes
    state := .open }

/-- `kernel_port_create`, and the port. -/
def kernelPortCreate (s : PortState) (owner maximumMessages maximumBytes : ℕ)
    (grant : RecordGrant) : KernelPortStatus × PortState × Option ℕ :=
  if owner = 0 ∨ maximumMessages = 0 ∨ kernelPortQueueMessagesMax < maximumMessages
      ∨ maximumBytes < kernelPortMessageSizeMin ∨ kernelPortQueueBytesMax < maximumBytes
      ∨ uint16Max < maximumMessages then
    (.invalidArgument, s, none)
  else if grant.attempt = false then (.noSlot, s, none)
  else
    match claimPortSlot grant.leaf kernelPortMax s 0 with
    | (none, s) => (.noSlot, s, none)
    | (some n, s) =>
      let generation := kernelGenerationNext (s.port n).generation
      let s := (s.setPort n fun _ =>
        newPort generation owner maximumMessages maximumBytes).initQueues n
      let s := { s with
        sent := update s.sent n []
        received := update s.received n []
        discarded := update s.discarded n [] }
      if grant.unit = false then (.corrupt, s.corrupted, none)
      else
        (.ok, { s with portUnits := s.portUnits + 1, activePorts := s.activePorts + 1 }, some n)

def freeMessage (s : PortState) (m : ℕ) : PortState :=
  if ¬ messageBacked s m ∨ (s.message m).state = .free then s.corrupted
  else
    let s := s.setMessage m fun message => resetMessageMetadata message.generation .free
    let s := { s with nextMessageSlot := if m < s.nextMessageSlot then m else s.nextMessageSlot }
    if s.messageUnits = 0 then s.corrupted else { s with messageUnits := s.messageUnits - 1 }

def maybeFreePort (s : PortState) (n : ℕ) : PortState :=
  let r := s.port n
  if ¬ validPortPointer s n ∨ r.state ≠ .closing ∨ r.references ≠ 0 ∨ r.queuedMessages ≠ 0
      ∨ r.queuedBytes ≠ 0 ∨ r.head ≠ none ∨ r.tail ≠ none ∨ r.releasingMessages = true then s
  else if kernelThreadWaitQueueCount s.pool (portReadable n) ≠ 0
      ∨ kernelThreadWaitQueueCount s.pool (portWritable n) ≠ 0 then
    s.corrupted
  else
    let s := (s.setPort n fun r => freePortRecord r.generation).initQueues n
    let s := { s with nextPortSlot := if n < s.nextPortSlot then n else s.nextPortSlot }
    if s.portUnits = 0 then s.corrupted else { s with portUnits := s.portUnits - 1 }

/-- A queued message as its receiver would get it. -/
def messageDelivery (s : PortState) (m : ℕ) : PortDelivery where
  bytes := (s.message m).data
  sender := (s.message m).sender
  references := (s.message m).detached.map fun h =>
    ((s.handles.detachedEntryAt (detachedSlot h)).map KernelDetachedEntry.reference).getD 0

/-- The message at the head of a queue may be discarded. -/
def discardable (s : PortState) (n m : ℕ) : Prop :=
  messageBacked s m ∧ (s.message m).state = .queued ∧ (s.message m).portSlot = some n
    ∧ (s.port n).queuedMessages ≠ 0 ∧ (s.message m).data.length ≤ (s.port n).queuedBytes
    ∧ s.queuedMessages ≠ 0 ∧ (s.message m).data.length ≤ s.queuedBytes
    ∧ (s.message m).detached.length ≤ s.queuedHandles

instance (s : PortState) (n m : ℕ) : Decidable (discardable s n m) :=
  inferInstanceAs (Decidable (_ ∧ _))

/-- The message at the head of a queue is taken out of it, and its slot is freed. -/
def takeHead (s : PortState) (n m : ℕ) : PortState :=
  let message := s.message m
  let s := s.setPort n fun r => { r with
    head := message.next
    queuedMessages := r.queuedMessages - 1
    queuedBytes := r.queuedBytes - message.data.length }
  { s with
    queuedMessages := s.queuedMessages - 1
    queuedBytes := s.queuedBytes - message.data.length
    queuedHandles := s.queuedHandles - message.detached.length }

/-- The loop of `discard_messages`, for at most as many messages as are queued. It answers with the
release callback of a handle that it has come to. -/
def discardLoop (n : ℕ) : ℕ → PortState → Option HandleGrant × PortState
  | 0, s => (none, if (s.port n).head = none then s else s.corrupted)
  | k + 1, s =>
    match (s.port n).head with
    | none => (none, s)
    | some m =>
      if ¬ discardable s n m then (none, s.corrupted)
      else
        let detached := (s.message m).detached
        let delivery := messageDelivery s m
        let s := freeMessage (takeHead s n m) m
        let s := { s with discarded := update s.discarded n (s.discarded n ++ [delivery]) }
        if detached = [] then discardLoop n k s
        else
          let r := kernelHandleDetachedRelease s.handles detached
          let g := callbackLeft s.handles r.2
          let s := s.withHandles r.2
          if r.1 ≠ .ok then (none, s.corrupted)
          else if g.isSome then (g, s)
          else discardLoop n k s

/-- How a close ends: it returns a status and the threads woken, or it has a callback to make. -/
inductive CloseEnd
  | returned (status : KernelPortStatus) (woken : ℕ)
  | interrupted (g : HandleGrant) (woken : ℕ)
  deriving DecidableEq, Repr

/-- The loop of `discard_messages` and the rest of `close_port`. -/
def closeRest (s : PortState) (n woken : ℕ) : CloseEnd × PortState :=
  match discardLoop n (s.port n).queuedMessages s with
  | (some g, s) => (.interrupted g woken, s)
  | (none, s) =>
    let s := s.setPort n fun r => { r with
      tail := if r.head = none then none else r.tail
      releasingMessages := false }
    if s.poolCorrupt then (.returned .corrupt 0, s)
    else
      let s := maybeFreePort s n
      (.returned (if s.poolCorrupt then .corrupt else .ok) woken, s)

def closePort (s : PortState) (n receiveResult sendResult : ℕ) : CloseEnd × PortState :=
  if ¬ validPortPointer s n ∨ receiveResult = astraSyscallOk ∨ sendResult = astraSyscallOk then
    (.returned .invalidArgument 0, s)
  else if (s.port n).state = .closing then (.returned .closed 0, s)
  else if ¬ activeState (s.port n).state ∨ (s.port n).owner = 0 ∨ (s.port n).generation = 0 then
    (.returned .corrupt 0, s)
  else
    let s := s.setPort n fun r => { r with
      state := .closing
      receiveTerminal := receiveResult
      sendTerminal := sendResult }
    let s := { s with activePorts := s.activePorts - 1 }
    match s.wakeBoth (portReadable n) (portWritable n) receiveResult sendResult with
    | (false, s, _) => (.returned .corrupt 0, s.corrupted)
    | (true, s, woken) =>
      if (s.port n).releasingMessages then (.returned .corrupt 0, s.corrupted)
      else closeRest (s.setPort n fun r => { r with releasingMessages := true }) n woken

/-- A close that has a callback to make is left until it returns. -/
def PortState.interrupt (s : PortState) (n woken : ℕ) (g : HandleGrant) (caller : CloseCaller) :
    PortState :=
  (s.pushFrame (.discard n woken caller)).pushFrame (.callback g)

/-- The loop of `kernel_port_owner_died`, from `slot` on; `fuel` is how many slots there are. -/
def ownerDiedFrom (owner : ℕ) : ℕ → ℕ → ℕ → ℕ → PortState → PortState
  | 0, _, closed, woken, s => { s with ownerDeath := some (.ok, closed, woken) }
  | fuel + 1, slot, closed, woken, s =>
    if s.portBackedLimit ≤ slot then { s with ownerDeath := some (.ok, closed, woken) }
    else if s.portDirectory (slot / portLeafEntries) = false ∨ ¬ activeState (s.port slot).state
        ∨ (s.port slot).owner ≠ owner then
      ownerDiedFrom owner fuel (slot + 1) closed woken s
    else
      match closePort s slot astraSyscallPeerDead astraSyscallPeerDead with
      | (.returned .ok portWoken, s) =>
        ownerDiedFrom owner fuel (slot + 1) (closed + 1) (woken + portWoken) s
      | (.returned _ _, s) => { s with ownerDeath := some (.corrupt, 0, 0) }
      | (.interrupted g portWoken, s) => s.interrupt slot portWoken g (.ownerDied owner closed woken)

def kernelPortOwnerDied (s : PortState) (owner : ℕ) : PortState :=
  if owner = 0 then { s with ownerDeath := some (.invalidArgument, 0, 0) }
  else ownerDiedFrom owner kernelPortMax 0 0 0 s

/-- What the caller of `close_port` does when it ends. -/
def afterClose (n : ℕ) (caller : CloseCaller) : CloseEnd × PortState → PortState
  | (.interrupted g woken, s) => s.interrupt n woken g caller
  | (.returned status portWoken, s) =>
    match caller with
    | .release => if status = .ok then s else s.corrupted
    | .ownerDied owner closed woken =>
      if status = .ok then
        ownerDiedFrom owner (kernelPortMax - (n + 1)) (n + 1) (closed + 1) (woken + portWoken) s
      else { s with ownerDeath := some (.corrupt, 0, 0) }

def kernelPortAbandonUnpublished (s : PortState) (n : ℕ) : PortState :=
  let r := s.port n
  if ¬ validPortPointer s n ∨ r.state ≠ .open ∨ r.references ≠ 2 ∨ r.sendReferences ≠ 1
      ∨ r.receiveReferences ≠ 1 ∨ r.queuedMessages ≠ 0 then
    s.corrupted
  else
    let s := s.setPort n fun r => { r with
      references := 0
      sendReferences := 0
      receiveReferences := 0 }
    afterClose n .release (closePort s n astraSyscallClosed astraSyscallPeerDead)

def kernelPortHandleRetain (s : PortState) (n : ℕ) (endpoint : KernelPortEndpoint) :
    Bool × PortState :=
  let r := s.port n
  if ¬ validPortPointer s n ∨ r.references = 0 then (false, s)
  else if endpoint ≠ .send then (false, s)
  else if ¬ activeState r.state ∧ r.state ≠ .closing then (false, s)
  else if r.sendReferences = 0 ∨ r.sendReferences = uint16Max ∨ r.references = uint16Max then
    (false, s)
  else
    (true, s.setPort n fun r => { r with
      sendReferences := r.sendReferences + 1
      references := r.references + 1 })

/-- `mark_sender_closed`, and the threads woken. -/
def markSenderClosed (s : PortState) (n : ℕ) : KernelPortStatus × PortState × ℕ :=
  if ¬ validPortPointer s n ∨ (s.port n).state ≠ .open ∨ (s.port n).sendReferences ≠ 0
      ∨ (s.port n).receiveReferences = 0 then
    (.corrupt, s, 0)
  else
    let s := s.setPort n fun r => { r with
      state := .peerClosed
      receiveTerminal := astraSyscallPeerDead
      sendTerminal := astraSyscallPeerDead }
    let result := if (s.port n).queuedMessages = 0 then astraSyscallPeerDead else astraSyscallOk
    match s.wakeBoth (portReadable n) (portWritable n) result astraSyscallPeerDead with
    | (true, s, woken) => (.ok, s, woken)
    | (false, s, _) => (.corrupt, s.corrupted, 0)

/-- A reference of an endpoint is given up. -/
def KernelPort.dropReference (r : KernelPort) : KernelPortEndpoint → KernelPort
  | .send => { r with
      sendReferences := r.sendReferences - 1
      references := r.references - 1 }
  | .receive => { r with
      receiveReferences := r.receiveReferences - 1
      references := r.references - 1 }

def kernelPortHandleRelease (s : PortState) (n : ℕ) (endpoint : KernelPortEndpoint) : PortState :=
  if ¬ validPortPointer s n ∨ (s.port n).state = .free ∨ (s.port n).references = 0
      ∨ (s.port n).endpointReferences endpoint = 0 then
    s.corrupted
  else
    let s := s.setPort n fun r => r.dropReference endpoint
    let r := s.port n
    if endpoint = .receive ∧ r.receiveReferences = 0 ∧ activeState r.state then
      afterClose n .release (closePort s n astraSyscallClosed astraSyscallPeerDead)
    else if endpoint = .send ∧ r.sendReferences = 0 ∧ r.state = .open then
      match markSenderClosed s n with
      | (.ok, s, _) => s
      | (_, s, _) => s.corrupted
    else if r.state = .closing then maybeFreePort s n
    else s

end Astra
