import Mathlib.Logic.Function.Basic
import Mathlib.Data.Nat.Notation

/-!
# Handle tables and the detached pool

A table maps the slots of a process to object references with rights; a detached entry carries a
reference from one table to another. Object pointers, callbacks and release contexts are numbers,
zero or none for NULL. `reference` names the reference an entry holds, and `retirements` counts how
often its slot was given up: the code has neither, and reads neither.

A release callback runs in the middle of a call and may make calls of its own. `frames` is what
the interrupted calls have still to do, the innermost first.
-/

namespace Astra

inductive KernelObjectType
  | none | process | thread | sync | device | timer | portSend | portReceive | area
  | ringProducer | ringConsumer | irq | dma | processLoad | libraryLoad | reply | audioStream
  | hostScope
  deriving DecidableEq, Repr

inductive KernelHandleStatus
  | ok | invalidArgument | tableFull | invalidHandle | typeMismatch | accessDenied | duplicate
  | transferPoolFull | invalidState | corrupt
  deriving DecidableEq, Repr

abbrev HandleRights := BitVec 32

/-- `KERNEL_HANDLE_RIGHT_TRANSFER`. -/
def handleRightTransfer : HandleRights := 1#32 <<< 5

def kernelHandleMaxEntries : ℕ := 255
def kernelHandleTransferMax : ℕ := 255
def kernelHandleDetachedMax : ℕ := 65535
def kernelHandleGenerationMask : ℕ := 0xffffff
def kernelDetachedGenerationMask : ℕ := 0xffff
def detachedLeafEntries : ℕ := 64

/-- The mask is one less than a power of two, so masking is reduction modulo that power. -/
def kernelGenerationNextMasked (generation mask : ℕ) : ℕ :=
  if (generation + 1) % (mask + 1) = 0 then 1 else (generation + 1) % (mask + 1)

/-- The marks of an entry's `reserved` field. -/
inductive SlotMark
  | none | importReserved | closing
  deriving DecidableEq, Repr

structure KernelHandleEntry where
  object : ℕ
  retain : Option ℕ
  release : Option ℕ
  releaseContext : ℕ
  rights : HandleRights
  generation : ℕ
  type : KernelObjectType
  occupied : Bool
  reserved : SlotMark
  reference : ℕ
  retirements : ℕ
  deriving DecidableEq

structure KernelHandleTable where
  entries : ℕ → KernelHandleEntry
  owner : ℕ
  processId : ℕ
  freeSlots : ℕ → Bool

inductive KernelDetachedState
  | free | reserved | live
  deriving DecidableEq, Repr

structure KernelDetachedEntry where
  object : ℕ
  retain : Option ℕ
  release : Option ℕ
  releaseContext : ℕ
  rights : HandleRights
  generation : ℕ
  type : KernelObjectType
  state : KernelDetachedState
  slot : ℕ
  reference : ℕ
  deriving DecidableEq

inductive HandleBatchState
  | empty | prepared | committed
  deriving DecidableEq, Repr

/-- The arrays `detached` and `source` as far as they are filled, place by place. -/
structure KernelHandleTransferBatch where
  entries : List (ℕ × ℕ)
  state : HandleBatchState

/-- The arrays `slots` and `handles` as far as they are filled, place by place. -/
structure KernelHandleImportReservation where
  entries : List (ℕ × ℕ)
  active : Bool

def KernelHandleTransferBatch.detached (batch : KernelHandleTransferBatch) : List ℕ :=
  batch.entries.map Prod.fst

def KernelHandleTransferBatch.source (batch : KernelHandleTransferBatch) : List ℕ :=
  batch.entries.map Prod.snd

def KernelHandleImportReservation.slots (reservation : KernelHandleImportReservation) : List ℕ :=
  reservation.entries.map Prod.fst

def KernelHandleImportReservation.handles (reservation : KernelHandleImportReservation) :
    List ℕ :=
  reservation.entries.map Prod.snd

structure KernelHandleTransferStats where
  preparedExports : ℕ
  committedExports : ℕ
  exportRollbacks : ℕ
  committedImports : ℕ
  importRollbacks : ℕ
  releasedDetached : ℕ
  poolExhaustions : ℕ
  liveDetached : ℕ
  maxLiveDetached : ℕ
  reservedDetached : ℕ

/-- What an installed or retained reference is to: its object and the callback that releases it. -/
structure HandleGrant where
  object : ℕ
  release : Option ℕ
  deriving DecidableEq, Repr

/-- What is left of a call once the release callback it makes returns. -/
inductive ReleaseFrame
  | done
  | closeAll (table : ℕ) (rest : List ℕ)
  | closeDestination (table : ℕ)
  | closeType (table : ℕ) (type : KernelObjectType) (rest : List ℕ)
  | detachedRelease (rest : List ℕ)

structure HandleState where
  tables : ℕ → KernelHandleTable
  transferPoolCorrupt : Bool
  /-- `detached_directory`: the leaves that are backed. -/
  detachedDirectory : ℕ → Option (ℕ → KernelDetachedEntry)
  detachedBackedLimit : ℕ
  detachedNextSlot : ℕ
  transferStats : KernelHandleTransferStats
  /-- Current units of the sites HANDLE_SLOT, DETACHED_HANDLE and DETACHED_HANDLE_METADATA. -/
  slotUnits : ℕ
  detachedUnits : ℕ
  metadataUnits : ℕ
  /-- The batches and reservations that callers keep in their own memory. -/
  batches : ℕ → KernelHandleTransferBatch
  reservations : ℕ → KernelHandleImportReservation
  frames : List ReleaseFrame
  /-- The references acquired so far, and those given up, the callbacks in the order they ran. -/
  acquired : List HandleGrant
  dropped : List (ℕ × HandleGrant)

namespace HandleState

def entry (s : HandleState) (τ i : ℕ) : KernelHandleEntry := (s.tables τ).entries i

def slotFree (s : HandleState) (τ i : ℕ) : Bool := (s.tables τ).freeSlots i

def setEntry (s : HandleState) (τ i : ℕ) (e : KernelHandleEntry) : HandleState :=
  { s with tables := Function.update s.tables τ { s.tables τ with
      entries := Function.update (s.tables τ).entries i e } }

def setSlotFree (s : HandleState) (τ i : ℕ) (b : Bool) : HandleState :=
  { s with tables := Function.update s.tables τ { s.tables τ with
      freeSlots := Function.update (s.tables τ).freeSlots i b } }

def detachedEntryAt (s : HandleState) (slot : ℕ) : Option KernelDetachedEntry :=
  if slot < kernelHandleDetachedMax then
    (s.detachedDirectory (slot / detachedLeafEntries)).map fun leaf =>
      leaf (slot % detachedLeafEntries)
  else none

def setDetached (s : HandleState) (slot : ℕ) (e : KernelDetachedEntry) : HandleState :=
  let leaf := (s.detachedDirectory (slot / detachedLeafEntries)).map fun leaf =>
    Function.update leaf (slot % detachedLeafEntries) e
  { s with
    detachedDirectory := Function.update s.detachedDirectory (slot / detachedLeafEntries) leaf }

/-- `transfer_pool_corrupt = 1u`. -/
def flag (s : HandleState) : HandleState := { s with transferPoolCorrupt := true }

/-- The flag is raised when what was tried returned false. -/
def flagUnless : Bool × HandleState → HandleState
  | (true, s) => s
  | (false, s) => s.flag

def acquire (s : HandleState) (g : HandleGrant) : HandleState :=
  { s with acquired := s.acquired ++ [g] }

def drop (s : HandleState) (reference : ℕ) (g : HandleGrant) : HandleState :=
  { s with dropped := s.dropped ++ [(reference, g)] }

/-- A reference is retained and given back at once; the callback itself is the caller's. -/
def lose (s : HandleState) (g : HandleGrant) : HandleState :=
  (s.acquire g).drop s.acquired.length g

def pushFrame (s : HandleState) (frame : ReleaseFrame) : HandleState :=
  { s with frames := frame :: s.frames }

end HandleState

/-- An entry's reference, as what was acquired. -/
def KernelHandleEntry.grant (e : KernelHandleEntry) : HandleGrant := ⟨e.object, e.release⟩

def KernelDetachedEntry.grant (e : KernelDetachedEntry) : HandleGrant := ⟨e.object, e.release⟩

def freeHandleEntry : KernelHandleEntry :=
  { object := 0, retain := none, release := none, releaseContext := 0, rights := 0#32,
    generation := 1, type := .none, occupied := false, reserved := .none, reference := 0,
    retirements := 0 }

def kernelHandleTableInit : KernelHandleTable :=
  { entries := fun _ => freeHandleEntry, owner := 0, processId := 0,
    freeSlots := fun i => decide (i < kernelHandleMaxEntries) }

def emptyTransferBatch : KernelHandleTransferBatch := ⟨[], .empty⟩

def emptyImportReservation : KernelHandleImportReservation := ⟨[], false⟩

/-- The state that `kernel_handle_transfer_pool_init` leaves at boot, every table as
`kernel_handle_table_init` leaves it. -/
def kernelHandleTransferPoolInit : HandleState :=
  { tables := fun _ => kernelHandleTableInit, transferPoolCorrupt := false,
    detachedDirectory := fun _ => none, detachedBackedLimit := 0, detachedNextSlot := 0,
    transferStats := ⟨0, 0, 0, 0, 0, 0, 0, 0, 0, 0⟩, slotUnits := 0, detachedUnits := 0,
    metadataUnits := 0, batches := fun _ => emptyTransferBatch,
    reservations := fun _ => emptyImportReservation, frames := [], acquired := [], dropped := [] }

end Astra
