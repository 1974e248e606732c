import AstraKernel.Handle.Step
import AstraKernel.Sync.Step

/-!
# Message ports

A port has a queue of messages between its send endpoint, of which there may be many references,
and its receive endpoint. The messages of all ports come out of one pool, linked by slot; the
handles of a message are detached from the sender's table while it is queued.

A port is named by its slot, and so is a message. A handle's release callback is a number: the one
of an endpoint stands for `kernel_port_handle_release` with the endpoint as its context. An
allocation site counts its units. Statistics that no function reads are left out.

The kernel does not keep `sent`, `received` and `discarded`: what has gone into a port and out of
it.
-/

namespace Astra

open Function

abbrev kernelPortMax : ℕ := 65535
abbrev kernelPortMessageMax : ℕ := 65535
abbrev kernelPortMessageSizeMin : ℕ := 24
abbrev kernelPortMessageSizeMax : ℕ := 1048
abbrev kernelPortMessageBytesMax : ℕ := kernelPortMessageMax * kernelPortMessageSizeMax
abbrev kernelPortMessageHandleMax : ℕ := kernelHandleTransferMax
abbrev kernelPortQueueMessagesMax : ℕ := 65535
abbrev kernelPortQueueBytesMax : ℕ := kernelPortQueueMessagesMax * kernelPortMessageSizeMax
abbrev portLeafEntries : ℕ := 64
abbrev messageLeafEntries : ℕ := 8
abbrev uint16Max : ℕ := 65535

inductive KernelPortEndpoint
  | send | receive
  deriving DecidableEq, Repr

inductive KernelPortState
  | free | open | peerClosed | closing
  deriving DecidableEq, Repr

inductive KernelPortStatus
  | ok | wouldBlock | peerDead | closed | bufferTooSmall | invalidArgument | invalidState | noSlot
  | invalidHandle | accessDenied | duplicateHandle | transferPoolFull | handleTableFull | corrupt
  deriving DecidableEq, Repr

inductive KernelPortMessageState
  | free | reserved | queued | receiving
  deriving DecidableEq, Repr

/-- The arrays `data` and `detached` as far as they are filled: `size` and `handle_count` are their
lengths. -/
structure KernelPortMessage where
  data : List (BitVec 8)
  detached : List ℕ
  generation : ℕ
  sender : ℕ
  next : Option ℕ
  portSlot : Option ℕ
  state : KernelPortMessageState
  deriving DecidableEq, Repr

structure KernelPort where
  owner : ℕ
  generation : ℕ
  queuedBytes : ℕ
  receiveTerminal : ℕ
  sendTerminal : ℕ
  references : ℕ
  sendReferences : ℕ
  receiveReferences : ℕ
  head : Option ℕ
  tail : Option ℕ
  queuedMessages : ℕ
  maximumMessages : ℕ
  maximumBytes : ℕ
  state : KernelPortState
  releasingMessages : Bool
  deriving DecidableEq, Repr

/-- The pointer to the message's bytes goes with its slot. -/
structure KernelPortReceipt where
  port : Option ℕ
  table : ℕ
  messageSlot : Option ℕ
  messageSize : ℕ
  messageGeneration : ℕ
  sender : ℕ
  handleCount : ℕ
  active : Bool
  deriving DecidableEq, Repr

/-- A message as it was sent or received: its bytes, its sender and the references of its
handles. -/
structure PortDelivery where
  bytes : List (BitVec 8)
  sender : ℕ
  references : List ℕ
  deriving DecidableEq, Repr

/-- Who closes a port: a call that has nothing more to do, or the loop of `kernel_port_owner_died`
at the port's slot, with the ports closed and the threads woken before. -/
inductive CloseCaller
  | release
  | ownerDied (owner closed woken : ℕ)
  deriving DecidableEq, Repr

/-- What a call has still to do, the innermost first: a release callback to make, the call that
made it to go on with, a port whose messages are being discarded, and the threads woken as it was
closed. A callback of an object that is no port makes calls of its own. -/
inductive PortFrame
  | callback (g : HandleGrant)
  | resume
  | discard (n woken : ℕ) (caller : CloseCaller)
  | foreign
  deriving DecidableEq, Repr

/-- The ports and their messages, over the thread pool and the handle tables. `portUnits` and its
like are the current units of the sites PORT_OBJECT, PORT_MESSAGE, PORT_METADATA and
PORT_MESSAGE_METADATA. -/
structure PortState where
  pool : Pool
  handles : HandleState
  port : ℕ → KernelPort
  portDirectory : ℕ → Bool
  portBackedLimit : ℕ
  nextPortSlot : ℕ
  message : ℕ → KernelPortMessage
  messageDirectory : ℕ → Bool
  messageBackedLimit : ℕ
  nextMessageSlot : ℕ
  activePorts : ℕ
  queuedMessages : ℕ
  queuedBytes : ℕ
  queuedHandles : ℕ
  portUnits : ℕ
  messageUnits : ℕ
  portMetadataUnits : ℕ
  messageMetadataUnits : ℕ
  poolCorrupt : Bool
  /-- The receipts that callers keep in their own memory. -/
  receipts : ℕ → KernelPortReceipt
  frames : List PortFrame
  /-- What `kernel_port_owner_died` answered last: its status, the ports closed and the threads
  woken. -/
  ownerDeath : Option (KernelPortStatus × ℕ × ℕ)
  sent : ℕ → List PortDelivery
  received : ℕ → List PortDelivery
  discarded : ℕ → List PortDelivery

def portReadable (n : ℕ) : QueueRef := .object (2 * n)

def portWritable (n : ℕ) : QueueRef := .object (2 * n + 1)

namespace PortState

def setPort (s : PortState) (n : ℕ) (f : KernelPort → KernelPort) : PortState :=
  { s with port := update s.port n (f (s.port n)) }

def setMessage (s : PortState) (m : ℕ) (f : KernelPortMessage → KernelPortMessage) : PortState :=
  { s with message := update s.message m (f (s.message m)) }

def setReceipt (s : PortState) (r : ℕ) (receipt : KernelPortReceipt) : PortState :=
  { s with receipts := update s.receipts r receipt }

def withPool (s : PortState) (p : Pool) : PortState :=
  { s with pool := p }

def withHandles (s : PortState) (h : HandleState) : PortState :=
  { s with handles := h }

def pushFrame (s : PortState) (frame : PortFrame) : PortState :=
  { s with frames := frame :: s.frames }

/-- `pool_corrupt = 1u`. -/
def corrupted (s : PortState) : PortState :=
  { s with poolCorrupt := true }

def initQueues (s : PortState) (n : ℕ) : PortState :=
  let waits := s.pool.waits.setQueue (portReadable n) fun _ => kernelThreadWaitQueueInit
  s.withPool { s.pool with
    waits := waits.setQueue (portWritable n) fun _ => kernelThreadWaitQueueInit }

end PortState

/-- A record of a new leaf. -/
def freePortRecord (generation : ℕ) : KernelPort where
  owner := 0
  generation := generation
  queuedBytes := 0
  receiveTerminal := 0
  sendTerminal := 0
  references := 0
  sendReferences := 0
  receiveReferences := 0
  head := none
  tail := none
  queuedMessages := 0
  maximumMessages := 0
  maximumBytes := 0
  state := .free
  releasingMessages := false

/-- What `reset_message_metadata` leaves of a message. -/
def resetMessageMetadata (generation : ℕ) (state : KernelPortMessageState) : KernelPortMessage where
  data := []
  detached := []
  generation := generation
  sender := 0
  next := none
  portSlot := none
  state := state

def emptyReceipt : KernelPortReceipt where
  port := none
  table := 0
  messageSlot := none
  messageSize := 0
  messageGeneration := 0
  sender := 0
  handleCount := 0
  active := false

/-- The state that `kernel_port_pool_init` leaves at boot. -/
def kernelPortPoolInit (p : Pool) (h : HandleState) : PortState where
  pool := p
  handles := h
  port _ := freePortRecord 0
  portDirectory _ := false
  portBackedLimit := 0
  nextPortSlot := 0
  message _ := resetMessageMetadata 0 .free
  messageDirectory _ := false
  messageBackedLimit := 0
  nextMessageSlot := 0
  activePorts := 0
  queuedMessages := 0
  queuedBytes := 0
  queuedHandles := 0
  portUnits := 0
  messageUnits := 0
  portMetadataUnits := 0
  messageMetadataUnits := 0
  poolCorrupt := false
  receipts _ := emptyReceipt
  frames := []
  ownerDeath := none
  sent _ := []
  received _ := []
  discarded _ := []

def validPortPointer (s : PortState) (n : ℕ) : Prop :=
  n < kernelPortMax ∧ s.portDirectory (n / portLeafEntries) = true

instance (s : PortState) (n : ℕ) : Decidable (validPortPointer s n) :=
  inferInstanceAs (Decidable (_ ∧ _))

/-- `message_at` finds a record. -/
def messageBacked (s : PortState) (m : ℕ) : Prop :=
  m < kernelPortMessageMax ∧ s.messageDirectory (m / messageLeafEntries) = true

instance (s : PortState) (m : ℕ) : Decidable (messageBacked s m) :=
  inferInstanceAs (Decidable (_ ∧ _))

def activeState (state : KernelPortState) : Prop :=
  state = .open ∨ state = .peerClosed

instance (state : KernelPortState) : Decidable (activeState state) :=
  inferInstanceAs (Decidable (_ ∨ _))

def KernelPort.endpointReferences (r : KernelPort) : KernelPortEndpoint → ℕ
  | .send => r.sendReferences
  | .receive => r.receiveReferences

/-- The release callback of an endpoint's handles. -/
def portRelease : KernelPortEndpoint → ℕ
  | .send => 1
  | .receive => 2

/-- What a handle to an endpoint of a port holds; a pointer is not null. -/
def portGrant (n : ℕ) (endpoint : KernelPortEndpoint) : HandleGrant :=
  ⟨n + 1, some (portRelease endpoint)⟩

/-- The port and the endpoint of a handle, if it is to a port. -/
def grantPort (g : HandleGrant) : Option (ℕ × KernelPortEndpoint) :=
  if g.object = 0 then none
  else if g.release = some (portRelease .send) then some (g.object - 1, .send)
  else if g.release = some (portRelease .receive) then some (g.object - 1, .receive)
  else none

/-- The release callback that a call of the handle tables has left to make. -/
def callbackLeft (h h' : HandleState) : Option HandleGrant :=
  if h.frames.length < h'.frames.length then h'.dropped.getLast?.map Prod.snd else none

end Astra
