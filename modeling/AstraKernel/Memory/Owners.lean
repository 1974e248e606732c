import Mathlib.Algebra.Group.Nat.Defs
import Mathlib.Data.Nat.Init
import Mathlib.Logic.Function.Basic

/-!
# The owner ledgers

A hash table of one ledger per owner that has frames or is protected, with a slot for each frame;
the frames of an owner are a list. Deleting moves ledgers back towards their homes until it comes to
an empty slot.
-/

namespace Astra

abbrev kernelOwnerNone : ℕ := 0
abbrev kernelFrameIndexNone : ℕ := 2 ^ 32 - 1
abbrev kernelOwnerProtected : ℕ := 0x80000000
abbrev kernelOwnerPeakMask : ℕ := 0x7fffffff

structure KernelOwnerLedger where
  owner : ℕ
  head : ℕ
  frameCount : ℕ
  peakAndFlags : ℕ
  deriving DecidableEq, Repr

namespace KernelOwnerLedger

/-- What a slot holds that no owner has. -/
def empty : KernelOwnerLedger := ⟨kernelOwnerNone, kernelFrameIndexNone, 0, 0⟩

/-- What a slot holds when an owner has just taken it. -/
def fresh (owner : ℕ) : KernelOwnerLedger := ⟨owner, kernelFrameIndexNone, 0, 0⟩

def isProtected (ledger : KernelOwnerLedger) : Bool :=
  decide (ledger.peakAndFlags &&& kernelOwnerProtected ≠ 0)

def peak (ledger : KernelOwnerLedger) : ℕ := ledger.peakAndFlags &&& kernelOwnerPeakMask

def setProtected (ledger : KernelOwnerLedger) (protectedOwner : Bool) : KernelOwnerLedger :=
  if protectedOwner then { ledger with peakAndFlags := ledger.peakAndFlags ||| kernelOwnerProtected }
  else { ledger with peakAndFlags := ledger.peakAndFlags &&& kernelOwnerPeakMask }

def recordPeak (ledger : KernelOwnerLedger) : KernelOwnerLedger :=
  if ledger.frameCount > ledger.peak then
    { ledger with
      peakAndFlags := (ledger.peakAndFlags &&& kernelOwnerProtected) ||| ledger.frameCount }
  else ledger

variable (ledger : KernelOwnerLedger)

@[simp] theorem owner_setProtected (b : Bool) : (ledger.setProtected b).owner = ledger.owner := by
  cases b <;> rfl

@[simp] theorem owner_recordPeak : ledger.recordPeak.owner = ledger.owner := by
  unfold recordPeak
  split <;> rfl

end KernelOwnerLedger

structure KernelOwnerTable where
  ledgers : ℕ → KernelOwnerLedger
  ownerNext : ℕ → ℕ
  ownerPrevious : ℕ → ℕ
  totalFrames : ℕ
  ownerSlotCapacity : ℕ
  ownerSlotsUsed : ℕ
  protectedOwners : ℕ

namespace KernelOwnerTable

/-- The table as it is set up for a machine. -/
def init (totalFrames : ℕ) : KernelOwnerTable where
  ledgers _ := .empty
  ownerNext _ := kernelFrameIndexNone
  ownerPrevious _ := kernelFrameIndexNone
  totalFrames := totalFrames
  ownerSlotCapacity := totalFrames
  ownerSlotsUsed := 0
  protectedOwners := 0

variable (t : KernelOwnerTable)

def setLedger (slot : ℕ) (ledger : KernelOwnerLedger) : KernelOwnerTable :=
  { t with ledgers := Function.update t.ledgers slot ledger }

def ownerSlotStart (owner : ℕ) : ℕ :=
  if t.ownerSlotCapacity &&& (t.ownerSlotCapacity - 1) = 0 then
    owner &&& (t.ownerSlotCapacity - 1)
  else owner % t.ownerSlotCapacity

/-- The slot a probe looks at after the slot `index`. -/
def nextSlot (index : ℕ) : ℕ := if index + 1 = t.ownerSlotCapacity then 0 else index + 1

/-- The rest of `find_owner_slot`'s loop, with so many probes to go. -/
def findOwnerSlotFrom (owner : ℕ) : ℕ → ℕ → Option ℕ
  | 0, _ => none
  | probes + 1, index =>
    if (t.ledgers index).owner = kernelOwnerNone then none
    else if (t.ledgers index).owner = owner then some index
    else findOwnerSlotFrom owner probes (t.nextSlot index)

def findOwnerSlot (owner : ℕ) : Option ℕ :=
  if t.ownerSlotCapacity = 0 then none
  else t.findOwnerSlotFrom owner t.ownerSlotCapacity (t.ownerSlotStart owner)

/-- The rest of `owner_slot_for_allocation`'s loop, with so many probes to go. -/
def ownerSlotForAllocationFrom (owner frameCount : ℕ) : ℕ → ℕ → Option ℕ
  | 0, _ => none
  | probes + 1, index =>
    if (t.ledgers index).owner = owner then
      if frameCount > (t.totalFrames + 2 ^ 32 - (t.ledgers index).frameCount) % 2 ^ 32 then none
      else some index
    else if (t.ledgers index).owner = kernelOwnerNone then some index
    else ownerSlotForAllocationFrom owner frameCount probes (t.nextSlot index)

def ownerSlotForAllocation (owner frameCount : ℕ) : Option ℕ :=
  if t.ownerSlotCapacity = 0 then none
  else t.ownerSlotForAllocationFrom owner frameCount t.ownerSlotCapacity (t.ownerSlotStart owner)

/-- How far a slot is past a home slot, as the deletion loop computes it. -/
def slotDistance (slot home : ℕ) : ℕ :=
  if slot ≥ home then slot - home else t.ownerSlotCapacity - home + slot

/-- `remove_owner_slot`'s loop, cut off after so many rounds. Its last assignments empty the hole. -/
def removeOwnerSlotFrom : ℕ → KernelOwnerTable → ℕ → ℕ → Option KernelOwnerTable
  | 0, _, _, _ => none
  | rounds + 1, t, hole, scan =>
    if (t.ledgers scan).owner = kernelOwnerNone then
      some { t.setLedger hole .empty with ownerSlotsUsed := t.ownerSlotsUsed - 1 }
    else
      let home := (t.ledgers scan).owner % t.ownerSlotCapacity
      if t.slotDistance hole home < t.slotDistance scan home then
        removeOwnerSlotFrom rounds (t.setLedger hole (t.ledgers scan)) scan (t.nextSlot scan)
      else removeOwnerSlotFrom rounds t hole (t.nextSlot scan)

/-- `remove_owner_slot`, as far as it comes in so many rounds of its loop. -/
def removeOwnerSlot (rounds slot : ℕ) : Option KernelOwnerTable :=
  if slot ≥ t.ownerSlotCapacity ∨ (t.ledgers slot).owner = kernelOwnerNone then some t
  else removeOwnerSlotFrom rounds t slot (t.nextSlot slot)

def protectSlot (slot : ℕ) : KernelOwnerTable :=
  if (t.ledgers slot).isProtected then t
  else { t.setLedger slot ((t.ledgers slot).setProtected true) with
    protectedOwners := t.protectedOwners + 1 }

def kernelMemoryProtectOwner (owner : ℕ) : Bool × KernelOwnerTable :=
  if owner = kernelOwnerNone then (false, t)
  else
    match t.findOwnerSlot owner with
    | some slot => (true, t.protectSlot slot)
    | none =>
      match t.ownerSlotForAllocation owner 0 with
      | none => (false, t)
      | some slot => (true, KernelOwnerTable.protectSlot
          { t.setLedger slot (.fresh owner) with ownerSlotsUsed := t.ownerSlotsUsed + 1 } slot)

/-- `kernel_memory_unprotect_owner` once it has found a protected owner's slot. -/
def unprotectSlot (rounds slot : ℕ) : Option (Bool × KernelOwnerTable) :=
  let t' := t.setLedger slot ((t.ledgers slot).setProtected false)
  if t.protectedOwners = 0 then some (false, t')
  else
    let t' := { t' with protectedOwners := t.protectedOwners - 1 }
    if (t.ledgers slot).frameCount = 0 then (t'.removeOwnerSlot rounds slot).map (true, ·)
    else some (true, t')

def kernelMemoryUnprotectOwner (rounds owner : ℕ) : Option (Bool × KernelOwnerTable) :=
  if owner = kernelOwnerNone then some (false, t)
  else
    match t.findOwnerSlot owner with
    | none => some (true, t)
    | some slot =>
      if (t.ledgers slot).isProtected then t.unprotectSlot rounds slot else some (true, t)

/-- The slot is the owner's when `link_owner_frame` starts on the list. -/
def claimSlot (slot owner : ℕ) : KernelOwnerTable :=
  if (t.ledgers slot).owner = kernelOwnerNone then
    { t.setLedger slot (.fresh owner) with ownerSlotsUsed := t.ownerSlotsUsed + 1 }
  else t

def linkOwnerFrame (slot frame owner : ℕ) : KernelOwnerTable :=
  let t := t.claimSlot slot owner
  let ledger := t.ledgers slot
  let previous := Function.update t.ownerPrevious frame kernelFrameIndexNone
  { t.setLedger slot
      (KernelOwnerLedger.recordPeak
        { ledger with head := frame, frameCount := (ledger.frameCount + 1) % 2 ^ 32 }) with
    ownerNext := Function.update t.ownerNext frame ledger.head
    ownerPrevious :=
      if ledger.head = kernelFrameIndexNone then previous
      else Function.update previous ledger.head frame }

/-- What `unlink_owner_frame` checks of the list before it changes it. -/
def unlinkable (slot frame : ℕ) : Bool :=
  let previous := t.ownerPrevious frame
  let next := t.ownerNext frame
  decide (frame < t.totalFrames ∧ (t.ledgers slot).frameCount ≠ 0 ∧
    (t.ledgers slot).owner ≠ kernelOwnerNone ∧
    (if previous = kernelFrameIndexNone then (t.ledgers slot).head = frame
      else previous < t.totalFrames ∧ t.ownerNext previous = frame) ∧
    (next ≠ kernelFrameIndexNone → next < t.totalFrames ∧ t.ownerPrevious next = frame))

def unlinkOwnerFrame (slot frame : ℕ) : Option KernelOwnerTable :=
  if t.unlinkable slot frame then
    let ledger := t.ledgers slot
    let previous := t.ownerPrevious frame
    let next := t.ownerNext frame
    let nexts := if previous = kernelFrameIndexNone then t.ownerNext
      else Function.update t.ownerNext previous next
    let previouses := if next = kernelFrameIndexNone then t.ownerPrevious
      else Function.update t.ownerPrevious next previous
    some { t.setLedger slot
        { ledger with
          head := if previous = kernelFrameIndexNone then next else ledger.head
          frameCount := ledger.frameCount - 1 } with
      ownerNext := Function.update nexts frame kernelFrameIndexNone
      ownerPrevious := Function.update previouses frame kernelFrameIndexNone }
  else none

end KernelOwnerTable

/-- The tables the allocator comes to. A slot is taken by a ledger that an allocation, a transfer or
a protection puts there, and a ledger is removed when its owner has no frame and no protection. -/
inductive KernelOwnerTableReachable : KernelOwnerTable → Prop
  | init (totalFrames : ℕ) : KernelOwnerTableReachable (.init totalFrames)
  | protect {t : KernelOwnerTable} (owner : ℕ) : KernelOwnerTableReachable t →
      KernelOwnerTableReachable (t.kernelMemoryProtectOwner owner).2
  | unprotect {t : KernelOwnerTable} {rounds owner : ℕ} {r : Bool × KernelOwnerTable} :
      KernelOwnerTableReachable t → t.kernelMemoryUnprotectOwner rounds owner = some r →
      KernelOwnerTableReachable r.2
  | link {t : KernelOwnerTable} {owner frameCount slot : ℕ} (frame : ℕ) :
      KernelOwnerTableReachable t → owner ≠ kernelOwnerNone →
      (t.findOwnerSlot owner = some slot ∨ t.ownerSlotForAllocation owner frameCount = some slot) →
      KernelOwnerTableReachable (t.linkOwnerFrame slot frame owner)
  | unlink {t t' : KernelOwnerTable} {owner slot frame : ℕ} :
      KernelOwnerTableReachable t → t.findOwnerSlot owner = some slot →
      t.unlinkOwnerFrame slot frame = some t' → KernelOwnerTableReachable t'
  | remove {t t' : KernelOwnerTable} {rounds owner slot : ℕ} :
      KernelOwnerTableReachable t → t.findOwnerSlot owner = some slot →
      (t.ledgers slot).frameCount = 0 → (t.ledgers slot).isProtected = false →
      t.removeOwnerSlot rounds slot = some t' → KernelOwnerTableReachable t'

end Astra
