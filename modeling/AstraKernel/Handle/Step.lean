import AstraKernel.Handle.Transfer
import Mathlib.Data.Finset.Card

/-!
# Runs over handle tables

A run is a sequence of calls and of returns of release callbacks. A call made while a callback runs
is made by the callback; a return takes the innermost interrupted call up again. Tables are named by
their index, one that is reused being a new one.
-/

namespace Astra

open HandleState

inductive HandleCall
  | setOwner (τ owner processId : ℕ)
  | cloneTable (σ τ : ℕ) (grants : ℕ → SlotGrant)
  | install (τ : ℕ) (type : KernelObjectType) (rights : HandleRights) (object : ℕ)
      (release : Option ℕ) (releaseContext : ℕ) (grant : SlotGrant)
  | installCloneable (τ : ℕ) (type : KernelObjectType) (rights : HandleRights) (object : ℕ)
      (retain release : Option ℕ) (releaseContext : ℕ) (grant : SlotGrant)
  | duplicate (τ source : ℕ) (rights : HandleRights) (grant : SlotGrant)
  | duplicateInto (σ source : ℕ) (rights : HandleRights) (τ : ℕ) (grant : SlotGrant)
  | lookup (τ handle : ℕ) (requiredType : KernelObjectType) (requiredRights : HandleRights)
  | lookupContext (τ handle : ℕ) (requiredType : KernelObjectType) (requiredRights : HandleRights)
  | lookupAny (τ handle : ℕ) (requiredRights : HandleRights)
  | setContext (τ handle : ℕ) (requiredType : KernelObjectType) (context : ℕ)
  | close (τ handle : ℕ)
  | closeAll (τ : ℕ)
  | closeType (τ : ℕ) (type : KernelObjectType)
  | transferValidate (τ : ℕ) (handles : List ℕ) (requiredRights : HandleRights)
  | transferPrepare (τ : ℕ) (handles : List ℕ) (requiredRights : HandleRights) (b : ℕ)
      (grants : ℕ → DetachedGrant)
  | transferNarrow (b : ℕ) (masks : ℕ → HandleRights)
  | transferCommitExport (τ b : ℕ)
  | transferRollback (b : ℕ)
  | importReserve (τ : ℕ) (detached : List ℕ) (r : ℕ) (grants : ℕ → SlotGrant)
  | importCommit (τ r : ℕ) (detached : List ℕ)
  | importCancel (τ r : ℕ)
  | detachedRelease (detached : List ℕ)

inductive HandleEvent
  | call (c : HandleCall)
  | returned

variable (F : KernelHandleImportRights)

/-- A call: its status, the handles it hands out, and the state it leaves or is interrupted in. -/
def HandleState.perform (s : HandleState) :
    HandleCall → (KernelHandleStatus × List ℕ) × HandleState
  | .setOwner τ owner processId =>
    let r := kernelHandleTableSetOwner s τ owner processId
    ((if r.1 then .ok else .invalidArgument, []), r.2)
  | .cloneTable σ τ grants =>
    let r := kernelHandleCloneTable s σ τ grants
    ((r.1, []), r.2)
  | .install τ type rights object release releaseContext grant =>
    let r := kernelHandleInstall s τ type rights object release releaseContext grant
    ((r.1.1, [r.1.2]), r.2)
  | .installCloneable τ type rights object retain release releaseContext grant =>
    let r := kernelHandleInstallCloneable s τ type rights object retain release releaseContext grant
    ((r.1.1, [r.1.2]), r.2)
  | .duplicate τ source rights grant =>
    let r := kernelHandleDuplicate s τ source rights grant
    ((r.1.1, [r.1.2]), r.2)
  | .duplicateInto σ source rights τ grant =>
    let r := kernelHandleDuplicateInto s σ source rights τ grant
    ((r.1.1, [r.1.2]), r.2)
  | .lookup τ handle requiredType requiredRights =>
    let r := kernelHandleLookup s τ handle requiredType requiredRights
    ((r.1.1, []), r.2)
  | .lookupContext τ handle requiredType requiredRights =>
    let r := kernelHandleLookupContext s τ handle requiredType requiredRights
    ((r.1.1, []), r.2)
  | .lookupAny τ handle requiredRights =>
    let r := kernelHandleLookupAny s τ handle requiredRights
    ((r.1.1, []), r.2)
  | .setContext τ handle requiredType context =>
    let r := kernelHandleSetContext s τ handle requiredType context
    ((r.1, []), r.2)
  | .close τ handle =>
    let r := kernelHandleClose s τ handle
    ((r.1, []), r.2)
  | .closeAll τ => ((.ok, []), kernelHandleCloseAll s τ)
  | .closeType τ type => ((.ok, []), kernelHandleCloseType s τ type)
  | .transferValidate τ handles requiredRights =>
    let r := kernelHandleTransferValidate F s τ handles requiredRights
    ((r.1, []), r.2)
  | .transferPrepare τ handles requiredRights b grants =>
    let r := kernelHandleTransferPrepare F s τ handles requiredRights b grants
    ((r.1, []), r.2)
  | .transferNarrow b masks =>
    let r := kernelHandleTransferNarrow F s b masks
    ((r.1, []), r.2)
  | .transferCommitExport τ b =>
    let r := kernelHandleTransferCommitExport s τ b
    ((r.1, []), r.2)
  | .transferRollback b =>
    let r := kernelHandleTransferRollback s b
    ((r.1, []), r.2)
  | .importReserve τ detached r grants =>
    let r := kernelHandleImportReserve s τ detached r grants
    ((r.1, []), r.2)
  | .importCommit τ r detached =>
    let handles := (s.reservations r).handles
    let r := kernelHandleImportCommit F s τ r detached
    ((r.1, handles), r.2)
  | .importCancel τ r =>
    let r := kernelHandleImportCancel s τ r
    ((r.1, []), r.2)
  | .detachedRelease detached =>
    let r := kernelHandleDetachedRelease s detached
    ((r.1, []), r.2)

/-- The release callback returns, and the call it interrupted goes on. -/
def HandleState.resume (s : HandleState) : HandleState :=
  match s.frames with
  | [] => s
  | frame :: frames =>
    let s := { s with frames := frames }
    match frame with
    | .done => s
    | .closeAll τ rest => closeAllRest τ rest s
    | .closeDestination τ => kernelHandleCloseAll s τ
    | .closeType τ type rest => closeTypeRest τ type rest s
    | .detachedRelease rest => releaseRest rest s

def HandleState.step (s : HandleState) : HandleEvent → HandleState
  | .call c => (s.perform F c).2
  | .returned => s.resume

def HandleState.run (s : HandleState) : List HandleEvent → HandleState
  | [] => s
  | ev :: evs => HandleState.run (s.step F ev) evs

/-- The slots whose entries an interrupted `kernel_handle_detached_release` has still to free. -/
def ReleaseFrame.pending : ReleaseFrame → List ℕ
  | .detachedRelease rest => rest
  | _ => []

def HandleState.pending (s : HandleState) : List ℕ := s.frames.flatMap ReleaseFrame.pending

/-- A table as `kernel_handle_table_init` and `kernel_handle_table_set_owner` leave it. -/
def Fresh (s : HandleState) (τ : ℕ) : Prop :=
  (s.tables τ).entries = kernelHandleTableInit.entries ∧
    (s.tables τ).freeSlots = kernelHandleTableInit.freeSlots

/-- What the rest of the kernel keeps to. A process is cloned outside every callback, into a table
just made. What is sent has to carry TRANSFER. A callback leaves alone the detached entries that
are being released around it. -/
def HandleAdmissible (s : HandleState) : HandleEvent → Prop
  | .call (.cloneTable _ τ _) => s.frames = [] ∧ Fresh s τ
  | .call (.transferPrepare _ _ requiredRights _ _) =>
    requiredRights &&& handleRightTransfer = handleRightTransfer
  | .call (.importCommit _ _ detached) => ∀ h ∈ detached, detachedSlot h ∉ s.pending
  | .call (.detachedRelease detached) => ∀ h ∈ detached, detachedSlot h ∉ s.pending
  | _ => True

def HandleState.Along (P : HandleState → HandleEvent → Prop) (s : HandleState) :
    List HandleEvent → Prop
  | [] => True
  | ev :: evs => P s ev ∧ HandleState.Along P (s.step F ev) evs

theorem HandleState.run_append (s : HandleState) (evs evs' : List HandleEvent) :
    s.run F (evs ++ evs') = (s.run F evs).run F evs' := by
  induction evs generalizing s with
  | nil => rfl
  | cons ev evs ih => exact ih (s.step F ev)

variable {s : HandleState} {P : HandleState → HandleEvent → Prop} {evs : List HandleEvent}

theorem HandleState.Along.append {evs' : List HandleEvent} :
    s.Along F P (evs ++ evs') ↔ s.Along F P evs ∧ (s.run F evs).Along F P evs' := by
  induction evs generalizing s with
  | nil => simp [HandleState.Along, HandleState.run]
  | cons ev evs ih => simp [HandleState.Along, HandleState.run, ih, and_assoc]

/-- An invariant that every step keeps, under `P`, is kept by every run under `P`. -/
theorem HandleState.run_induction
    {I : HandleState → Prop} (hstep : ∀ s ev, I s → P s ev → I (s.step F ev)) (h : I s) (ha : s.Along F P evs) : I (s.run F evs) := by
  induction evs generalizing s with
  | nil => exact h
  | cons ev evs ih => exact ih (hstep s ev h ha.1) ha.2

end Astra

/-!
## The audit of the detached pool

`kernel_handle_transfer_pool_valid` compares the leaves and the entries of the pool with the
allocator's units and the statistics.
-/

namespace Astra

open HandleState

def detachedLeafCount : ℕ := (kernelHandleDetachedMax + detachedLeafEntries - 1) / detachedLeafEntries

/-- The leaves that are backed before the first that is not. -/
def allocatedLeaves (s : HandleState) : ℕ :=
  ((List.range detachedLeafCount).takeWhile fun leaf => (s.detachedDirectory leaf).isSome).length

/-- The entries of the pool in a state. -/
def detachedIn (s : HandleState) (state : KernelDetachedState) : Finset ℕ :=
  (Finset.range s.detachedBackedLimit).filter fun index =>
    (s.detachedEntryAt index).any fun entry => decide (entry.state = state)

/-- What the audit asks of the entry of an index. -/
def detachedEntryValid (index : ℕ) (entry : KernelDetachedEntry) : Prop :=
  entry.slot = index ∧ entry.generation ≠ 0 ∧ entry.generation ≤ kernelDetachedGenerationMask ∧
    if entry.state = .free then
      entry.object = 0 ∧ entry.release = none ∧ entry.retain = none ∧ entry.releaseContext = 0 ∧
        entry.rights = 0 ∧ entry.type = .none
    else entry.object ≠ 0 ∧ entry.release ≠ none ∧ entry.rights ≠ 0 ∧ entry.type ≠ .none

instance (index : ℕ) (entry : KernelDetachedEntry) : Decidable (detachedEntryValid index entry) :=
  inferInstanceAs (Decidable (_ ∧ _ ∧ _ ∧ ite _ _ _))

/-- `kernel_handle_transfer_pool_valid`; the bytes of a site go with its units. -/
def kernelHandleTransferPoolValid (s : HandleState) : Prop :=
  s.transferPoolCorrupt = false ∧
    (∀ leaf < detachedLeafCount, allocatedLeaves s ≤ leaf → s.detachedDirectory leaf = none) ∧
    s.detachedBackedLimit = min (allocatedLeaves s * detachedLeafEntries) kernelHandleDetachedMax ∧
    (∀ index < s.detachedBackedLimit, ∃ entry ∈ s.detachedEntryAt index,
      detachedEntryValid index entry) ∧
    s.detachedUnits = (detachedIn s .live).card + (detachedIn s .reserved).card ∧
    s.metadataUnits = allocatedLeaves s * detachedLeafFrames ∧
    (detachedIn s .live).card = s.transferStats.liveDetached ∧
    (detachedIn s .reserved).card = s.transferStats.reservedDetached ∧
    (detachedIn s .live).card ≤ kernelHandleDetachedMax ∧
    (detachedIn s .reserved).card ≤ kernelHandleDetachedMax - (detachedIn s .live).card ∧
    (detachedIn s .live).card ≤ s.transferStats.maxLiveDetached ∧
    s.transferStats.maxLiveDetached ≤ kernelHandleDetachedMax

/-- Every table with its free slots, the account of the slots and the detached entries in use are as
they were, and the audits pass. -/
structure Undone (s s' : HandleState) : Prop where
  entries : ∀ τ i, s'.entry τ i = s.entry τ i
  freeSlots : ∀ τ i, s'.slotFree τ i = s.slotFree τ i
  slotUnits : s'.slotUnits = s.slotUnits
  inUse : ∀ d e, e.state ≠ .free → (s'.detachedEntryAt d = some e ↔ s.detachedEntryAt d = some e)
  tables : ∀ τ, kernelHandleTableValid s τ = true → kernelHandleTableValid s' τ = true
  pool : kernelHandleTransferPoolValid s'

end Astra
