import AstraKernel.Handle.State

/-!
# Calls on handle tables

A call that looks an entry up answers with its slot. Whether a slot is granted and committed, and
whether an object may be retained once more, is given to a call: any may fail at any slot. A call
that runs a release callback leaves the rest of its work on `frames`.
-/

namespace Astra

/-- What the allocator and the object's retain callback answer for one slot. -/
structure SlotGrant where
  attempt : Bool
  retained : Bool
  commit : Bool

def makeHandle (index generation : ℕ) : ℕ := generation * 256 + (index + 1)

/-- A generation out of range starts over. -/
def normalGeneration (generation mask : ℕ) : ℕ :=
  if generation = 0 ∨ mask < generation then 1 else generation

def findEntry (s : HandleState) (τ handle : ℕ) : Except KernelHandleStatus ℕ :=
  let slot := handle % 256
  let generation := handle / 256
  if slot = 0 ∨ kernelHandleMaxEntries < slot ∨ generation = 0 then .error .invalidHandle
  else
    let entry := s.entry τ (slot - 1)
    if entry.occupied ∧ s.slotFree τ (slot - 1) then .error .corrupt
    else if entry.occupied = false ∨ entry.reserved ≠ .none ∨ entry.generation ≠ generation then
      .error .invalidHandle
    else .ok (slot - 1)

namespace HandleState

/-- `find_entry` raises the flag with one of its statuses only. -/
def noting (s : HandleState) : KernelHandleStatus → HandleState
  | .corrupt => s.flag
  | _ => s

def slotCommit (s : HandleState) : HandleState := { s with slotUnits := s.slotUnits + 1 }

/-- `kernel_allocation_release` of one handle slot. -/
def slotRelease (s : HandleState) : Bool × HandleState :=
  if s.slotUnits = 0 then (false, s) else (true, { s with slotUnits := s.slotUnits - 1 })

def claimFreeSlot (s : HandleState) (τ : ℕ) : Option ℕ × HandleState :=
  match (List.range kernelHandleMaxEntries).find? (s.slotFree τ) with
  | none => (none, s)
  | some i =>
    if (s.entry τ i).occupied ∨ (s.entry τ i).reserved ≠ .none then (none, s.flag)
    else (some i, s.setSlotFree τ i false)

def releaseFreeSlot (s : HandleState) (τ i : ℕ) : Bool × HandleState :=
  if (s.entry τ i).occupied ∨ (s.entry τ i).reserved ≠ .none ∨ s.slotFree τ i then (false, s)
  else (true, s.setSlotFree τ i true)

/-- The status of a call that could not claim a slot. -/
def claimFailure (s : HandleState) : KernelHandleStatus :=
  if s.transferPoolCorrupt then .corrupt else .tableFull

def retireEntry (s : HandleState) (τ i : ℕ) : HandleState :=
  let entry := s.entry τ i
  let s := s.setEntry τ i { freeHandleEntry with
    generation := kernelGenerationNextMasked entry.generation kernelHandleGenerationMask
    retirements := entry.retirements + 1 }
  let s := flagUnless s.slotRelease
  flagUnless (s.releaseFreeSlot τ i)

/-- The entry's slot is given up and its reference dropped; the callback itself is the caller's. -/
def retireAndDrop (s : HandleState) (τ i : ℕ) : HandleState :=
  (s.retireEntry τ i).drop (s.entry τ i).reference (s.entry τ i).grant

end HandleState

open HandleState

def kernelHandleCount (s : HandleState) (τ : ℕ) : ℕ :=
  (List.range kernelHandleMaxEntries).countP fun i => (s.entry τ i).occupied

def kernelHandleAvailable (s : HandleState) (τ : ℕ) : ℕ :=
  (List.range kernelHandleMaxEntries).countP (s.slotFree τ)

def kernelHandleTableValid (s : HandleState) (τ : ℕ) : Bool :=
  (decide ((s.tables τ).owner = 0) == decide ((s.tables τ).processId = 0)) &&
    (List.range kernelHandleMaxEntries).all fun i =>
      let entry := s.entry τ i
      !(entry.occupied && decide (entry.reserved ≠ .none)) &&
        (s.slotFree τ i == (!entry.occupied && decide (entry.reserved = .none)))

def kernelHandleTableSetOwner (s : HandleState) (τ owner processId : ℕ) : Bool × HandleState :=
  if owner = 0 ∨ processId = 0 ∨ kernelHandleTableValid s τ = false ∨ kernelHandleCount s τ ≠ 0 ∨
      (List.range kernelHandleMaxEntries).any fun i => decide ((s.entry τ i).reserved ≠ .none) then
    (false, s)
  else
    let table := { s.tables τ with owner := owner, processId := processId }
    (true, { s with tables := Function.update s.tables τ table })

/-- The first loop of `kernel_handle_close_all`, at one slot. -/
def closeMark (τ : ℕ) (s : HandleState) (i : ℕ) : HandleState :=
  let entry := s.entry τ i
  if entry.occupied then s.setEntry τ i { entry with occupied := false, reserved := .closing }
  else if entry.reserved ≠ .importReserved then s
  else
    let s := flagUnless s.slotRelease
    let s := s.setEntry τ i { entry with reserved := .none }
    flagUnless (s.releaseFreeSlot τ i)

/-- The second loop, from the slots it has still to visit. -/
def closeAllRest (τ : ℕ) : List ℕ → HandleState → HandleState
  | [], s => s
  | i :: rest, s =>
    let entry := s.entry τ i
    if entry.reserved ≠ .closing then closeAllRest τ rest s
    else match entry.release with
      | none => closeAllRest τ rest (s.retireAndDrop τ i)
      | some _ => (s.retireAndDrop τ i).pushFrame (.closeAll τ rest)

def kernelHandleCloseAll (s : HandleState) (τ : ℕ) : HandleState :=
  closeAllRest τ (List.range kernelHandleMaxEntries)
    ((List.range kernelHandleMaxEntries).foldl (closeMark τ) s)

/-- The loop of `kernel_handle_clone_table`, from the slots it has still to visit. -/
def cloneEntries (σ τ : ℕ) (grants : ℕ → SlotGrant) :
    List ℕ → HandleState → KernelHandleStatus × HandleState
  | [], s => (.ok, s)
  | i :: rest, s =>
    let source := s.entry σ i
    let destination := s.entry τ i
    if source.occupied = false then
      cloneEntries σ τ grants rest (s.setEntry τ i { destination with
        generation := source.generation, retirements := source.retirements })
    else if source.retain = none then
      -- A stale value in the cloned address space must not name what is installed here next.
      cloneEntries σ τ grants rest (s.setEntry τ i { destination with
        generation := kernelGenerationNextMasked source.generation kernelHandleGenerationMask
        retirements := source.retirements + 1 })
    else if s.slotFree τ i = false ∨ destination.occupied ∨ destination.reserved ≠ .none ∨
        (grants i).attempt = false then
      (.tableFull, kernelHandleCloseAll s τ)
    else if (grants i).retained = false then
      (.invalidState, kernelHandleCloseAll ((s.setSlotFree τ i false).setSlotFree τ i true) τ)
    else
      let s := s.setSlotFree τ i false
      let copy := { source with
        occupied := true, reserved := .none, reference := s.acquired.length }
      if (grants i).commit then
        cloneEntries σ τ grants rest ((s.setEntry τ i copy).acquire source.grant).slotCommit
      else
        let s := s.setEntry τ i { copy with occupied := false }
        let s := (s.setSlotFree τ i true).lose source.grant
        match source.release with
        | none => (.corrupt, kernelHandleCloseAll s τ)
        | some _ => (.corrupt, s.pushFrame (.closeDestination τ))

def kernelHandleCloneTable (s : HandleState) (σ τ : ℕ) (grants : ℕ → SlotGrant) :
    KernelHandleStatus × HandleState :=
  if kernelHandleTableValid s σ = false ∨ kernelHandleTableValid s τ = false ∨
      (s.tables τ).owner = 0 ∨ kernelHandleCount s τ ≠ 0 then (.invalidArgument, s)
  else cloneEntries σ τ grants (List.range kernelHandleMaxEntries) s

def install (s : HandleState) (τ : ℕ) (type : KernelObjectType) (rights : HandleRights)
    (object : ℕ) (retain release : Option ℕ) (releaseContext : ℕ) (grant : SlotGrant) :
    (KernelHandleStatus × ℕ) × HandleState :=
  if object = 0 ∨ type = .none ∨ rights = 0 then ((.invalidArgument, 0), s)
  else if grant.attempt = false then ((.tableFull, 0), s)
  else match s.claimFreeSlot τ with
    | (none, s) => ((s.claimFailure, 0), s)
    | (some i, s) =>
      let entry := s.entry τ i
      let entry := { entry with
        object := object, retain := retain, release := release, releaseContext := releaseContext,
        rights := rights, type := type, occupied := true, reserved := .none,
        generation := normalGeneration entry.generation kernelHandleGenerationMask,
        reference := s.acquired.length }
      if grant.commit then
        ((.ok, makeHandle i entry.generation),
          ((s.setEntry τ i entry).acquire entry.grant).slotCommit)
      else
        ((.corrupt, 0),
          flagUnless ((s.setEntry τ i { entry with occupied := false }).releaseFreeSlot τ i))

def kernelHandleInstall (s : HandleState) (τ : ℕ) (type : KernelObjectType) (rights : HandleRights)
    (object : ℕ) (release : Option ℕ) (releaseContext : ℕ) (grant : SlotGrant) :
    (KernelHandleStatus × ℕ) × HandleState :=
  install s τ type rights object none release releaseContext grant

def kernelHandleInstallCloneable (s : HandleState) (τ : ℕ) (type : KernelObjectType)
    (rights : HandleRights) (object : ℕ) (retain release : Option ℕ) (releaseContext : ℕ)
    (grant : SlotGrant) : (KernelHandleStatus × ℕ) × HandleState :=
  if retain = none then ((.invalidArgument, 0), s)
  else install s τ type rights object retain release releaseContext grant

def kernelHandleDuplicateInto (s : HandleState) (σ source : ℕ) (rights : HandleRights) (τ : ℕ)
    (grant : SlotGrant) : (KernelHandleStatus × ℕ) × HandleState :=
  if rights = 0 then ((.invalidArgument, 0), s)
  else match findEntry s σ source with
    | .error status => ((status, 0), s.noting status)
    | .ok j =>
      let entry := s.entry σ j
      if entry.rights &&& handleRightTransfer = 0 ∨ rights &&& ~~~entry.rights ≠ 0 ∨
          entry.retain = none then ((.accessDenied, 0), s)
      else if grant.attempt = false then ((.tableFull, 0), s)
      else match s.claimFreeSlot τ with
        | (none, s) => ((s.claimFailure, 0), s)
        | (some i, s) =>
          if grant.retained = false then
            ((.invalidState, 0), flagUnless (s.releaseFreeSlot τ i))
          else
            let destination := s.entry τ i
            let destination := { destination with
              object := entry.object, retain := entry.retain, release := entry.release,
              releaseContext := entry.releaseContext, rights := rights, type := entry.type,
              occupied := true, reserved := .none,
              generation := normalGeneration destination.generation kernelHandleGenerationMask,
              reference := s.acquired.length }
            if grant.commit then
              ((.ok, makeHandle i destination.generation),
                ((s.setEntry τ i destination).acquire entry.grant).slotCommit)
            else
              let s := s.lose entry.grant
              let s := s.setEntry τ i { destination with occupied := false }
              let s := flagUnless (s.releaseFreeSlot τ i)
              match entry.release with
              | none => ((.corrupt, 0), s)
              | some _ => ((.corrupt, 0), s.pushFrame .done)

def kernelHandleDuplicate (s : HandleState) (τ source : ℕ) (rights : HandleRights)
    (grant : SlotGrant) : (KernelHandleStatus × ℕ) × HandleState :=
  kernelHandleDuplicateInto s τ source rights τ grant

def kernelHandleLookup (s : HandleState) (τ handle : ℕ) (requiredType : KernelObjectType)
    (requiredRights : HandleRights) : (KernelHandleStatus × ℕ) × HandleState :=
  match findEntry s τ handle with
  | .error status => ((status, 0), s.noting status)
  | .ok i =>
    let entry := s.entry τ i
    if requiredType ≠ .none ∧ entry.type ≠ requiredType then ((.typeMismatch, 0), s)
    else if entry.rights &&& requiredRights ≠ requiredRights then ((.accessDenied, 0), s)
    else ((.ok, entry.object), s)

/-- The object and the release context. -/
def kernelHandleLookupContext (s : HandleState) (τ handle : ℕ) (requiredType : KernelObjectType)
    (requiredRights : HandleRights) : (KernelHandleStatus × ℕ × ℕ) × HandleState :=
  match findEntry s τ handle with
  | .error status => ((status, 0, 0), s.noting status)
  | .ok i =>
    let entry := s.entry τ i
    if requiredType ≠ .none ∧ entry.type ≠ requiredType then ((.typeMismatch, 0, 0), s)
    else if entry.rights &&& requiredRights ≠ requiredRights then ((.accessDenied, 0, 0), s)
    else ((.ok, entry.object, entry.releaseContext), s)

/-- The type and the object. -/
def kernelHandleLookupAny (s : HandleState) (τ handle : ℕ) (requiredRights : HandleRights) :
    (KernelHandleStatus × KernelObjectType × ℕ) × HandleState :=
  match findEntry s τ handle with
  | .error status => ((status, .none, 0), s.noting status)
  | .ok i =>
    let entry := s.entry τ i
    if entry.rights &&& requiredRights ≠ requiredRights then ((.accessDenied, .none, 0), s)
    else if entry.type = .none ∨ entry.object = 0 then ((.invalidHandle, .none, 0), s)
    else ((.ok, entry.type, entry.object), s)

def kernelHandleSetContext (s : HandleState) (τ handle : ℕ) (requiredType : KernelObjectType)
    (context : ℕ) : KernelHandleStatus × HandleState :=
  match findEntry s τ handle with
  | .error status => (status, s.noting status)
  | .ok i =>
    let entry := s.entry τ i
    if requiredType = .none ∨ entry.type ≠ requiredType then (.typeMismatch, s)
    else (.ok, s.setEntry τ i { entry with releaseContext := context })

def kernelHandleClose (s : HandleState) (τ handle : ℕ) : KernelHandleStatus × HandleState :=
  match findEntry s τ handle with
  | .error status => (status, s.noting status)
  | .ok i =>
    match (s.entry τ i).release with
    | none => (.ok, s.retireAndDrop τ i)
    | some _ => (.ok, (s.retireAndDrop τ i).pushFrame .done)

/-- The loop of `kernel_handle_close_type`, from the slots it has still to visit: the close it
makes, with its callback, comes back to the rest of the loop. -/
def closeTypeRest (τ : ℕ) (type : KernelObjectType) : List ℕ → HandleState → HandleState
  | [], s => s
  | slot :: rest, s =>
    let entry := s.entry τ slot
    if entry.occupied = false ∨ entry.type ≠ type then closeTypeRest τ type rest s
    else match findEntry s τ (makeHandle slot entry.generation) with
      | .error status => s.noting status
      | .ok i =>
        match (s.entry τ i).release with
        | none => closeTypeRest τ type rest (s.retireAndDrop τ i)
        | some _ => (s.retireAndDrop τ i).pushFrame (.closeType τ type rest)

def kernelHandleCloseType (s : HandleState) (τ : ℕ) (type : KernelObjectType) : HandleState :=
  if type = .none then s else closeTypeRest τ type (List.range kernelHandleMaxEntries) s

end Astra
