import AstraKernel.Port.Object

/-!
# Sending and receiving

A send takes the handles out of the sender's table and queues the message; a receive reserves slots
in the receiver's table, and takes the message and its handles over when it commits. Between the two
the message stays at the head of its queue, marked.
-/

namespace Astra

open Function

/-- The search of `allocate_message`, from `offset` past `next_message_slot` on. -/
def claimMessageSlot (memory : Bool) : ℕ → PortState → ℕ → Option ℕ × PortState
  | 0, s, _ => (none, s)
  | fuel + 1, s, offset =>
    let slot := s.nextMessageSlot + offset
    let slot := if kernelPortMessageMax ≤ slot then slot - kernelPortMessageMax else slot
    match s.ensureMessageLeaf slot memory with
    | (false, s) => (none, s)
    | (true, s) =>
      if (s.message slot).state = .free then
        let next := if slot + 1 = kernelPortMessageMax then 0 else slot + 1
        (some slot, { s with nextMessageSlot := next })
      else claimMessageSlot memory fuel s (offset + 1)

/-- `allocate_message`, and the message. -/
def allocateMessage (s : PortState) (grant : RecordGrant) :
    KernelPortStatus × PortState × Option ℕ :=
  if grant.attempt = false then (.noSlot, s, none)
  else
    match claimMessageSlot grant.leaf kernelPortMessageMax s 0 with
    | (none, s) => (.noSlot, s, none)
    | (some m, s) =>
      let s := s.setMessage m fun message =>
        resetMessageMetadata (kernelGenerationNext message.generation) .reserved
      if grant.unit = false then (.corrupt, s.corrupted, none)
      else (.ok, { s with messageUnits := s.messageUnits + 1 }, some m)

def mapHandleStatus : KernelHandleStatus → KernelPortStatus
  | .invalidHandle => .invalidHandle
  | .typeMismatch => .invalidHandle
  | .accessDenied => .accessDenied
  | .duplicate => .duplicateHandle
  | .transferPoolFull => .transferPoolFull
  | .tableFull => .handleTableFull
  | .invalidArgument => .invalidArgument
  | _ => .corrupt

/-- What a send is given: its message's record, the entries its handles are detached into, and
where it keeps the batch. -/
structure SendGrant where
  record : RecordGrant
  detached : ℕ → DetachedGrant
  batch : ℕ

section

variable (F : KernelHandleImportRights)

/-- The rights that the message's handles arrive with are narrowed. -/
def narrowHandles (h : HandleState) (masks : Option (ℕ → HandleRights)) (b : ℕ) :
    KernelHandleStatus × HandleState :=
  match masks with
  | none => (.ok, h)
  | some masks => kernelHandleTransferNarrow F h b masks

/-- The handles of a message leave the sender's table, or stay there. Also whether an export that
could not be finished was rolled back. -/
def exportHandles (h : HandleState) (τ : ℕ) (handles : List ℕ)
    (masks : Option (ℕ → HandleRights)) (grant : SendGrant) :
    KernelPortStatus × Bool × HandleState :=
  match kernelHandleTransferPrepare F h τ handles handleRightTransfer grant.batch
      grant.detached with
  | (.ok, h) =>
    match narrowHandles F h masks grant.batch with
    | (.ok, h) =>
      match kernelHandleTransferCommitExport h τ grant.batch with
      | (.ok, h) => (.ok, true, h)
      | (_, h) =>
        let r := kernelHandleTransferRollback h grant.batch
        (.corrupt, r.1 = .ok, r.2)
    | (status, h) =>
      let r := kernelHandleTransferRollback h grant.batch
      (mapHandleStatus status, r.1 = .ok, r.2)
  | (status, h) => (mapHandleStatus status, true, h)

/-- The end of the queue is where a send expects it. -/
def tailSound (s : PortState) (n : ℕ) : Bool :=
  let r := s.port n
  if r.queuedMessages = 0 then r.head.isNone && r.tail.isNone
  else r.head.any (fun h => h < kernelPortMessageMax) && r.tail.any fun t =>
    messageBacked s t ∧ (s.message t).state = .queued ∧ (s.message t).next = none

/-- A message is put at the end of its port's queue. -/
def enqueueMessage (s : PortState) (n m : ℕ) : PortState :=
  let message := s.message m
  let s := s.setMessage m fun message => { message with state := .queued }
  let s := match (s.port n).tail with
    | none => s.setPort n fun r => { r with head := some m, tail := some m }
    | some t =>
      (s.setMessage t fun last => { last with next := some m }).setPort n fun r =>
        { r with tail := some m }
  let s := s.setPort n fun r => { r with
    queuedMessages := r.queuedMessages + 1
    queuedBytes := r.queuedBytes + message.data.length }
  { s with
    queuedMessages := s.queuedMessages + 1
    queuedBytes := s.queuedBytes + message.data.length
    queuedHandles := s.queuedHandles + message.detached.length }

/-- The reference of a handle of a table. -/
def handleReference (h : HandleState) (τ handle : ℕ) : ℕ :=
  match findEntry h τ handle with
  | .ok i => (h.entry τ i).reference
  | .error _ => 0

/-- The end of `kernel_port_send_narrowed`, from the message's record on. -/
def sendMessage (s : PortState) (n τ : ℕ) (rawMessage : List (BitVec 8)) (handles : List ℕ)
    (masks : Option (ℕ → HandleRights)) (grant : SendGrant) :
    KernelPortStatus × PortState × Option Slot :=
  match allocateMessage s grant.record with
  | (.ok, s, some m) =>
    let s := s.setMessage m fun message => { message with
      data := rawMessage
      sender := (s.handles.tables τ).processId
      portSlot := some n }
    let delivery : PortDelivery := ⟨rawMessage, (s.handles.tables τ).processId,
      handles.map (handleReference s.handles τ)⟩
    let r : KernelPortStatus × Bool × HandleState :=
      if handles = [] then (.ok, true, s.handles) else exportHandles F s.handles τ handles masks grant
    let s := s.withHandles r.2.2
    let s := if r.2.1 then s else s.corrupted
    if r.1 ≠ .ok then (r.1, freeMessage s m, none)
    else
      let detached := if handles = [] then [] else (s.handles.batches grant.batch).detached
      let s := s.setMessage m fun message => { message with detached := detached }
      let s := enqueueMessage s n m
      let s := { s with sent := update s.sent n (s.sent n ++ [delivery]) }
      match s.wakeOne (portReadable n) astraSyscallOk with
      | (true, s, woken) => (.ok, s, woken)
      | (false, s, _) => (.corrupt, s.corrupted, none)
  | (status, s, _) => (status, s, none)

/-- `kernel_port_send_narrowed`, and the thread woken. -/
def kernelPortSendNarrowed (s : PortState) (n τ : ℕ) (rawMessage : List (BitVec 8))
    (handles : List ℕ) (masks : Option (ℕ → HandleRights)) (grant : SendGrant) :
    KernelPortStatus × PortState × Option Slot :=
  let r := s.port n
  if ¬ validPortPointer s n ∨ rawMessage.length < kernelPortMessageSizeMin
      ∨ kernelPortMessageSizeMax < rawMessage.length
      ∨ kernelPortMessageHandleMax < handles.length then
    (.invalidArgument, s, none)
  else if r.state = .closing ∨ r.state = .peerClosed then (.peerDead, s, none)
  else if r.state ≠ .open ∨ r.sendReferences = 0 ∨ r.receiveReferences = 0 then (.corrupt, s, none)
  else if r.maximumMessages ≤ r.queuedMessages
      ∨ r.maximumBytes - r.queuedBytes < rawMessage.length then
    (.wouldBlock, s, none)
  else if tailSound s n = false then (.corrupt, s, none)
  else if handles = [] then sendMessage F s n τ rawMessage handles masks grant
  else
    let v := kernelHandleTransferValidate F s.handles τ handles handleRightTransfer
    let s := s.withHandles v.2
    if v.1 ≠ .ok then (mapHandleStatus v.1, s, none)
    else sendMessage F s n τ rawMessage handles masks grant

def kernelPortSend (s : PortState) (n τ : ℕ) (rawMessage : List (BitVec 8)) (handles : List ℕ)
    (grant : SendGrant) : KernelPortStatus × PortState × Option Slot :=
  kernelPortSendNarrowed F s n τ rawMessage handles none grant

end

/-- `kernel_port_receive_prepare` into the receipt `r`, whose reservation is kept under the same
name, with the size and the handles required. -/
def kernelPortReceivePrepare (s : PortState) (n τ messageCapacity handleCapacity r : ℕ)
    (grants : ℕ → SlotGrant) : KernelPortStatus × PortState × ℕ × ℕ :=
  if ¬ validPortPointer s n ∨ kernelPortMessageHandleMax < handleCapacity then
    (.invalidArgument, s, 0, 0)
  else
    let s := s.setReceipt r emptyReceipt
    let s := s.withHandles (s.handles.setReservation r emptyImportReservation)
    let p := s.port n
    if p.state = .closing then
      (if p.receiveTerminal = astraSyscallPeerDead then .peerDead else .closed, s, 0, 0)
    else if ¬ activeState p.state ∨ p.receiveReferences = 0 then (.corrupt, s, 0, 0)
    else if p.queuedMessages = 0 then
      if p.head ≠ none ∨ p.tail ≠ none then (.corrupt, s, 0, 0)
      else if p.state = .peerClosed then (.peerDead, s, 0, 0)
      else (.wouldBlock, s, 0, 0)
    else
      match p.head with
      | none => (.corrupt, s, 0, 0)
      | some m =>
        let message := s.message m
        let size := message.data.length
        let count := message.detached.length
        if ¬ messageBacked s m then (.corrupt, s, 0, 0)
        else if message.state = .receiving then (.wouldBlock, s, 0, 0)
        else if message.state ≠ .queued ∨ message.portSlot ≠ some n then (.corrupt, s, 0, 0)
        else if messageCapacity < size ∨ handleCapacity < count then
          (.bufferTooSmall, s, size, count)
        else
          match kernelHandleImportReserve s.handles τ message.detached r grants with
          | (.ok, h) =>
            let s := (s.withHandles h).setMessage m fun message =>
              { message with state := .receiving }
            (.ok, s.setReceipt r
              { port := some n
                table := τ
                messageSlot := some m
                messageSize := size
                messageGeneration := message.generation
                sender := message.sender
                handleCount := count
                active := true }, size, count)
          | (status, h) => (mapHandleStatus status, s.withHandles h, size, count)

/-- `valid_receipt`, for the receipt of a port and a message. -/
def validReceipt (s : PortState) (receipt : KernelPortReceipt) (n m : ℕ) : Prop :=
  receipt.active = true ∧ receipt.port = some n ∧ receipt.messageSlot = some m
    ∧ validPortPointer s n ∧ messageBacked s m ∧ (s.port n).head = some m
    ∧ (s.message m).state = .receiving ∧ (s.message m).generation = receipt.messageGeneration
    ∧ (s.message m).sender = receipt.sender ∧ (s.message m).portSlot = some n
    ∧ (s.message m).data.length = receipt.messageSize
    ∧ (s.message m).detached.length = receipt.handleCount

instance (s : PortState) (receipt : KernelPortReceipt) (n m : ℕ) :
    Decidable (validReceipt s receipt n m) :=
  inferInstanceAs (Decidable (_ ∧ _))

/-- The message of a receipt has gone to its receiver. -/
def commitWake (s : PortState) (n : ℕ) : KernelPortStatus × PortState × ℕ :=
  match s.wakeAll (portWritable n) astraSyscallOk with
  | (false, s, _) => (.corrupt, s.corrupted, 0)
  | (true, s, writableWoken) =>
    if (s.port n).queuedMessages ≠ 0 then
      match s.wakeOne (portReadable n) astraSyscallOk with
      | (false, s, _) => (.corrupt, s.corrupted, 0)
      | (true, s, woken) => (.ok, s, writableWoken + if woken.isSome then 1 else 0)
    else if (s.port n).state = .peerClosed then
      match s.wakeAll (portReadable n) astraSyscallPeerDead with
      | (false, s, _) => (.corrupt, s.corrupted, 0)
      | (true, s, readableWoken) => (.ok, s, writableWoken + readableWoken)
    else (.ok, s, writableWoken)

/-- `kernel_port_receive_commit`, and the threads woken. -/
def kernelPortReceiveCommit (F : KernelHandleImportRights) (s : PortState) (r : ℕ) :
    KernelPortStatus × PortState × ℕ :=
  let receipt := s.receipts r
  match receipt.port, receipt.messageSlot with
  | some n, some m =>
    let message := s.message m
    if ¬ validReceipt s receipt n m then (.invalidState, s, 0)
    else if ¬ activeState (s.port n).state then (.corrupt, s, 0)
    else if (s.port n).queuedMessages = 0 ∨ (s.port n).queuedBytes < message.data.length
        ∨ s.queuedMessages = 0 ∨ s.queuedBytes < message.data.length
        ∨ s.queuedHandles < message.detached.length
        ∨ (message.next = none ∧ (s.port n).tail ≠ some m) then
      (.corrupt, s, 0)
    else
      let slots := (s.handles.reservations r).slots
      match kernelHandleImportCommit F s.handles receipt.table r message.detached with
      | (.ok, h) =>
        let delivery : PortDelivery := ⟨message.data, receipt.sender,
          slots.map fun i => (h.entry receipt.table i).reference⟩
        let s := takeHead (s.withHandles h) n m
        let s := s.setPort n fun p => { p with tail := if p.head = none then none else p.tail }
        let s := (freeMessage s m).setReceipt r emptyReceipt
        commitWake { s with received := update s.received n (s.received n ++ [delivery]) } n
      | (_, h) => (.corrupt, s.withHandles h, 0)
  | _, _ => (.invalidState, s, 0)

/-- `kernel_port_receive_cancel`, and the threads woken. -/
def kernelPortReceiveCancel (s : PortState) (r : ℕ) : KernelPortStatus × PortState × ℕ :=
  let receipt := s.receipts r
  match receipt.port, receipt.messageSlot with
  | some n, some m =>
    if ¬ validReceipt s receipt n m then (.invalidState, s, 0)
    else
      match kernelHandleImportCancel s.handles receipt.table r with
      | (.ok, h) =>
        let s := (s.withHandles h).setMessage m fun message => { message with state := .queued }
        match (s.setReceipt r emptyReceipt).wakeOne (portReadable n) astraSyscallOk with
        | (true, s, woken) => (.ok, s, if woken.isSome then 1 else 0)
        | (false, s, _) => (.corrupt, s.corrupted, 0)
      | (_, h) => (.corrupt, s.withHandles h, 0)
  | _, _ => (.invalidState, s, 0)

def sendReady (r : KernelPort) : Prop :=
  r.state = .open ∧ r.queuedMessages < r.maximumMessages
    ∧ r.queuedBytes ≤ r.maximumBytes - kernelPortMessageSizeMin

instance (r : KernelPort) : Decidable (sendReady r) :=
  inferInstanceAs (Decidable (_ ∧ _))

def portQueue (n : ℕ) : KernelPortEndpoint → QueueRef
  | .send => portWritable n
  | .receive => portReadable n

/-- The answer of a port that is closing. -/
def closingAnswer (r : KernelPort) : KernelPortEndpoint → KernelPortStatus
  | .send => .peerDead
  | .receive => if r.receiveTerminal = astraSyscallPeerDead then .peerDead else .closed

/-- The end of `kernel_port_prepare_wait`. -/
def preparePortOn (s : PortState) (queue : QueueRef) : KernelPortStatus × KernelThreadWaitSpec :=
  let spec : KernelThreadWaitSpec := ⟨some queue, kernelThreadWaitQueueSequence s.pool queue⟩
  (if spec.sequence = 0 then .corrupt else .wouldBlock, spec)

/-- A message at the head of the queue is there to be received. -/
def receivable (s : PortState) (n : ℕ) : Bool :=
  (s.port n).queuedMessages ≠ 0 && (s.port n).head.any fun m =>
    messageBacked s m ∧ (s.message m).state = .queued

/-- `kernel_port_prepare_wait`, and the spec to wait on. -/
def kernelPortPrepareWait (s : PortState) (n : ℕ) (endpoint : KernelPortEndpoint) :
    KernelPortStatus × KernelThreadWaitSpec :=
  let r := s.port n
  if ¬ validPortPointer s n then (.invalidArgument, ⟨none, 0⟩)
  else if r.state = .closing then (closingAnswer r endpoint, ⟨none, 0⟩)
  else if ¬ activeState r.state then (.corrupt, ⟨none, 0⟩)
  else
    match endpoint with
    | .send =>
      if sendReady r then (.ok, ⟨none, 0⟩)
      else if r.state = .peerClosed then (.peerDead, ⟨none, 0⟩)
      else preparePortOn s (portWritable n)
    | .receive =>
      if receivable s n then (.ok, ⟨none, 0⟩)
      else if r.state = .peerClosed ∧ r.queuedMessages = 0 then (.peerDead, ⟨none, 0⟩)
      else preparePortOn s (portReadable n)

/-- `kernel_port_prepare_wait_after`, and the spec to wait on. -/
def kernelPortPrepareWaitAfter (s : PortState) (n : ℕ) (endpoint : KernelPortEndpoint)
    (expectedSequence : ℕ) : KernelPortStatus × KernelThreadWaitSpec :=
  let r := s.port n
  let sequence := kernelThreadWaitQueueSequence s.pool (portQueue n endpoint)
  if ¬ validPortPointer s n ∨ expectedSequence = 0 then (.invalidArgument, ⟨none, 0⟩)
  else if r.state = .closing then (closingAnswer r endpoint, ⟨none, 0⟩)
  else if ¬ activeState r.state then (.corrupt, ⟨none, 0⟩)
  else if endpoint = .send ∧ r.state = .peerClosed then (.peerDead, ⟨none, 0⟩)
  else if endpoint = .receive ∧ r.state = .peerClosed ∧ r.queuedMessages = 0 then
    (.peerDead, ⟨none, 0⟩)
  else if sequence = 0 then (.corrupt, ⟨none, 0⟩)
  else if sequence ≠ expectedSequence then (.ok, ⟨none, 0⟩)
  else (.wouldBlock, ⟨some (portQueue n endpoint), sequence⟩)

def kernelPortCommitWait (s : PortState) (n : ℕ) (endpoint : KernelPortEndpoint) :
    KernelPortStatus :=
  let waiters := kernelThreadWaitQueueCount s.pool (portQueue n endpoint)
  if ¬ validPortPointer s n ∨ (s.port n).state = .free then .invalidArgument
  else if waiters ≠ 0 ∧ waiters ≠ uint32Max then .ok
  else .invalidState

end Astra
