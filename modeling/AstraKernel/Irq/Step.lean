import AstraKernel.Irq.Dispatch

/-!
# Runs of the interrupt endpoints

Calls on the endpoints and on the thread pool under them, one after another. A wait probes its
members in turn and blocks on all when none is ready, in one system call; a claim masks its source
at the controller before it is dispatched.
-/

namespace Astra

open Function

/-- A member of a wait set: an endpoint, or an object of another kind. -/
inductive IrqMember
  | irq (n : ℕ)
  | pending (spec : KernelThreadWaitSpec)
  | ready
  deriving DecidableEq, Repr

/-- How the probes of a wait set end: with the specs of all members, or at a member that has events,
has ended, or has failed. -/
inductive IrqProbe
  | specs (specs : List KernelThreadWaitSpec)
  | events (index : ℕ) (flags : KernelIrqFlags)
  | ended (index : ℕ) (status : KernelIrqStatus)
  | failed (index : ℕ) (status : KernelIrqStatus)
  deriving DecidableEq, Repr

/-- The second loop of `wait_handle_set`. `specs` holds those before, last first. -/
def irqProbes (s : IrqState) : ℕ → List KernelThreadWaitSpec → List IrqMember → IrqProbe
  | _, specs, [] => .specs specs.reverse
  | index, specs, .irq n :: members =>
    match kernelIrqPrepareWait s n with
    | (.wouldBlock, spec) => irqProbes s (index + 1) (spec :: specs) members
    | (.ok, _) =>
      match kernelIrqRead s n with
      | (.ok, _, flags) | (.overflow, _, flags) | (.storm, _, flags) | (.deviceError, _, flags) =>
        .events index flags
      | (status, _, _) => .failed index status
    | (.closed, _) => .ended index .closed
    | (status, _) => .failed index status
  | index, specs, .pending spec :: members => irqProbes s (index + 1) (spec :: specs) members
  | index, _, .ready :: _ => .ended index .ok

/-- `flags` as the word `kernel_irq_read` reports. -/
def KernelIrqFlags.events (f : KernelIrqFlags) : ℕ :=
  f.overflow.toNat + 2 * f.storm.toNat + 4 * f.deviceError.toNat

/-- `wait_handle_set`, from the resolved handles on: how the probes ended, and whether the thread is
blocked. -/
def waitIrqSet (s : IrqState) (t : Slot) (members : List IrqMember) (multiple : Bool)
    (now deadline : ℕ) (rowMemory heapMemory : Bool) : IrqProbe × Bool × IrqState :=
  let probe := irqProbes s 0 [] members
  match probe with
  | .specs specs =>
    let r := waitBlock s.pool t specs multiple now deadline rowMemory heapMemory
    (probe, r.1 = .ok, s.withPool r.2)
  | .events index flags =>
    (probe, false, s.withPool (setWaitOutputs s.pool t multiple index flags.events))
  | .ended index _ =>
    (probe, false, if multiple then s.withPool (setWaitOutputs s.pool t true index 0) else s)
  | .failed _ _ => (probe, false, s)

inductive IrqEvent
  | thread (op : ThreadOp)
  | bindInternal (binding : KernelIrqInternalBinding) (a : IrqAnswers)
  | armInternal (source : ℕ) (a : IrqAnswers)
  | maskInternal (source : ℕ) (a : IrqAnswers)
  | bind (owner : ℕ) (binding : KernelIrqBinding) (attempt : Bool) (a : IrqAnswers)
  | retain (n : ℕ)
  | release (n : ℕ) (a : IrqAnswers)
  | abandon (n : ℕ) (a : IrqAnswers)
  | arm (n : ℕ) (a : IrqAnswers)
  | mask (n : ℕ) (a : IrqAnswers)
  | recover (n : ℕ) (a : IrqAnswers)
  | dispatch (source vector : ℕ) (timestamp : BitVec 64) (a : IrqAnswers)
  | dispatchClaimed (source vector : ℕ) (timestamp : BitVec 64) (a : IrqAnswers)
  | ack (n sequence : ℕ) (a : IrqAnswers)
  | waitSet (t : Slot) (members : List IrqMember) (multiple : Bool) (now deadline : ℕ)
      (rowMemory heapMemory : Bool)
  | revoke (n : ℕ) (a : IrqAnswers)
  | ownerDied (owner : ℕ) (a : ℕ → IrqAnswers)
  | serviceRevocations (batchLimit : ℕ) (a : ℕ → IrqAnswers)

/-- The claim of a source, which masks it. -/
def IrqState.claim (s : IrqState) (source : ℕ) : IrqState :=
  { s with enabled := update s.enabled source false }

def IrqState.step (s : IrqState) : IrqEvent → IrqState
  | .thread op => s.withPool (s.pool.step op).2
  | .bindInternal binding a => (kernelIrqBindInternal s binding a).2
  | .armInternal source a => (kernelIrqArmInternal s source a).2
  | .maskInternal source a => (kernelIrqMaskInternal s source a).2
  | .bind owner binding attempt a => (kernelIrqBind s owner binding attempt a).2.1
  | .retain n => (kernelIrqHandleRetain s n).2
  | .release n a => kernelIrqHandleRelease s n a
  | .abandon n a => kernelIrqAbandonUnpublished s n a
  | .arm n a => (kernelIrqArm s n a).2
  | .mask n a => (kernelIrqMask s n a).2
  | .recover n a => (kernelIrqRecover s n a).2
  | .dispatch source vector timestamp a => (kernelIrqDispatch s source vector timestamp a).2.1
  | .dispatchClaimed source vector timestamp a =>
    (kernelIrqDispatchClaimed (s.claim source) source vector timestamp a).2.1
  | .ack n sequence a => (kernelIrqAck s n sequence a).2
  | .waitSet t members multiple now deadline rowMemory heapMemory =>
    (waitIrqSet s t members multiple now deadline rowMemory heapMemory).2.2
  | .revoke n a => (kernelIrqRevoke s n a).2.1
  | .ownerDied owner a => (kernelIrqOwnerDied s owner a).2.1
  | .serviceRevocations batchLimit a => (kernelIrqServiceRevocations s batchLimit a).2.1

def IrqState.run (s : IrqState) : List IrqEvent → IrqState
  | [] => s
  | ev :: evs => (s.step ev).run evs

/-- Every event of the list satisfies `P` in the state it is met in. -/
def IrqState.Along (P : IrqState → IrqEvent → Prop) (s : IrqState) : List IrqEvent → Prop
  | [] => True
  | ev :: evs => P s ev ∧ IrqState.Along P (s.step ev) evs

end Astra
