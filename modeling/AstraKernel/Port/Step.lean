import AstraKernel.Port.Message

/-!
# Runs of the ports

Calls on the ports, the thread pool and the handle tables, one after another. A call that has a
release callback to make is left on `frames`, where `advance` takes it up; the callback of an object
that is no port makes calls of its own until it returns.
-/

namespace Astra

open Function

/-- The callback that a call of the handle tables has left to make goes onto the frames. -/
def PortState.handled (s : PortState) (h : HandleState) : PortState :=
  match callbackLeft s.handles h with
  | none => s.withHandles h
  | some g => (s.withHandles h).pushFrame (.callback g)

/-- The retain callbacks that a call of the handle tables has made, one after another, and whether
they all agreed. -/
def retainEach : List HandleGrant → PortState → Bool × PortState
  | [], s => (true, s)
  | g :: grants, s =>
    match grantPort g with
    | none => retainEach grants s
    | some (n, endpoint) =>
      match kernelPortHandleRetain s n endpoint with
      | (true, s) => retainEach grants s
      | (false, s) => (false, s)

/-- A call of the handle tables installs a reference that its caller has. -/
def HandleCall.installs : HandleCall → Bool
  | .install .. => true
  | .installCloneable .. => true
  | _ => false

/-- What is done next, the innermost call first. -/
def PortState.advance (s : PortState) : PortState :=
  match s.frames with
  | .callback g :: frames =>
    let s := { s with frames := .resume :: frames }
    match grantPort g with
    | some (n, endpoint) => kernelPortHandleRelease s n endpoint
    | none => s.pushFrame .foreign
  | .resume :: frames =>
    let popped := { s.handles with frames := s.handles.frames.tail }
    let h := s.handles.resume
    let s := { s with frames := frames }
    match callbackLeft popped h with
    | none => s.withHandles h
    | some g => (s.withHandles h).pushFrame (.callback g)
  | .discard n woken caller :: frames =>
    afterClose n caller (closeRest { s with frames := frames } n woken)
  | .foreign :: _ => s
  | [] => s

/-- A member of a wait set: an endpoint of a port, or an object of another kind. -/
inductive PortMember
  | port (n : ℕ) (endpoint : KernelPortEndpoint)
  | portAfter (n : ℕ) (endpoint : KernelPortEndpoint) (expectedSequence : ℕ)
  | pending (spec : KernelThreadWaitSpec)
  | ready
  deriving DecidableEq, Repr

/-- How the probes of a wait set end: with the specs of all members, or at a member that answers. -/
inductive PortProbe
  | specs (specs : List KernelThreadWaitSpec)
  | answered (index : ℕ) (status : KernelPortStatus)
  deriving DecidableEq, Repr

/-- The probe of one member: its spec when it would block. -/
def PortMember.probe (s : PortState) : PortMember → KernelPortStatus × KernelThreadWaitSpec
  | .port n endpoint => kernelPortPrepareWait s n endpoint
  | .portAfter n endpoint expectedSequence =>
    kernelPortPrepareWaitAfter s n endpoint expectedSequence
  | .pending spec => (.wouldBlock, spec)
  | .ready => (.ok, ⟨none, 0⟩)

/-- The second loop of `wait_handle_set`. `specs` holds those before, last first. -/
def portProbes (s : PortState) : ℕ → List KernelThreadWaitSpec → List PortMember → PortProbe
  | _, specs, [] => .specs specs.reverse
  | index, specs, member :: members =>
    match member.probe s with
    | (.wouldBlock, spec) => portProbes s (index + 1) (spec :: specs) members
    | (status, _) => .answered index status

/-- `wait_handle_set`, from the resolved handles on: how the probes ended, and whether the thread is
blocked. -/
def waitPortSet (s : PortState) (t : Slot) (members : List PortMember) (multiple : Bool)
    (now deadline : ℕ) (rowMemory heapMemory : Bool) : PortProbe × Bool × PortState :=
  match portProbes s 0 [] members with
  | .specs specs =>
    let r := waitBlock s.pool t specs multiple now deadline rowMemory heapMemory
    (.specs specs, r.1 = .ok, s.withPool r.2)
  | .answered index status =>
    (.answered index status, false,
      if multiple ∧ status ≠ .corrupt then s.withPool (setWaitOutputs s.pool t true index 0) else s)

inductive PortEvent
  | thread (op : ThreadOp)
  | handle (c : HandleCall)
  | create (owner maximumMessages maximumBytes : ℕ) (grant : RecordGrant)
  | abandon (n : ℕ)
  | retain (n : ℕ) (endpoint : KernelPortEndpoint)
  | release (n : ℕ) (endpoint : KernelPortEndpoint)
  | send (n τ : ℕ) (rawMessage : List (BitVec 8)) (handles : List ℕ)
      (masks : Option (ℕ → HandleRights)) (grant : SendGrant)
  | prepare (n τ messageCapacity handleCapacity r : ℕ) (grants : ℕ → SlotGrant)
  | commit (r : ℕ)
  | cancel (r : ℕ)
  | ownerDied (owner : ℕ)
  | waitSet (t : Slot) (members : List PortMember) (multiple : Bool) (now deadline : ℕ)
      (rowMemory heapMemory : Bool)
  | advance
  | returned

variable (F : KernelHandleImportRights)

def PortState.step (s : PortState) : PortEvent → PortState
  | .thread op => s.withPool (s.pool.step op).2
  | .handle c =>
    let h := (s.handles.perform F c).2
    let acquired := h.acquired.drop s.handles.acquired.length
    (if c.installs then s else (retainEach acquired s).2).handled h
  | .create owner maximumMessages maximumBytes grant =>
    (kernelPortCreate s owner maximumMessages maximumBytes grant).2.1
  | .abandon n => kernelPortAbandonUnpublished s n
  | .retain n endpoint => (kernelPortHandleRetain s n endpoint).2
  | .release n endpoint => kernelPortHandleRelease s n endpoint
  | .send n τ rawMessage handles masks grant =>
    (kernelPortSendNarrowed F s n τ rawMessage handles masks grant).2.1
  | .prepare n τ messageCapacity handleCapacity r grants =>
    (kernelPortReceivePrepare s n τ messageCapacity handleCapacity r grants).2.1
  | .commit r => (kernelPortReceiveCommit F s r).2.1
  | .cancel r => (kernelPortReceiveCancel s r).2.1
  | .ownerDied owner => kernelPortOwnerDied s owner
  | .waitSet t members multiple now deadline rowMemory heapMemory =>
    (waitPortSet s t members multiple now deadline rowMemory heapMemory).2.2
  | .advance => s.advance
  | .returned => { s with frames := s.frames.tail }

def PortState.run (s : PortState) : List PortEvent → PortState
  | [] => s
  | ev :: evs => PortState.run (s.step F ev) evs

/-- Every event of the list satisfies `P` in the state it is met in. -/
def PortState.Along (P : PortState → PortEvent → Prop) (s : PortState) : List PortEvent → Prop
  | [] => True
  | ev :: evs => P s ev ∧ PortState.Along P (s.step F ev) evs

end Astra
