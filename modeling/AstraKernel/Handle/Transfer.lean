import AstraKernel.Handle.Table

/-!
# Moving handles between tables

An export is prepared in the detached pool, where the reserved entries stand beside their sources,
and then committed or rolled back; an import reserves slots and then takes the live entries over or
cancels. A batch and a reservation are named by where their caller keeps them.
-/

namespace Astra

/-- What the allocator answers for one detached entry: `leaf` for the leaf of a slot that is not
backed yet. -/
structure DetachedGrant where
  attempt : Bool
  leaf : ℕ → Bool
  commit : Bool

inductive KernelObjectCacheStatus
  | ok | unavailable | corrupt
  deriving DecidableEq, Repr

def detachedLeafFrames : ℕ := (detachedLeafEntries * 28 + 4095) / 4096

def makeDetachedHandle (index generation : ℕ) : ℕ := generation * 65536 + (index + 1)

/-- The slot a detached handle encodes. -/
def detachedSlot (handle : ℕ) : ℕ := handle % 65536 - 1

/-- An entry after `clear_detached_entry`. -/
def clearDetachedEntry (slot generation : ℕ) : KernelDetachedEntry :=
  { object := 0, retain := none, release := none, releaseContext := 0, rights := 0#32,
    generation := generation, type := .none, state := .free, slot := slot, reference := 0 }

/-- The index past the last slot that a leaf holds is not a slot, and is numbered `UINT16_MAX`. -/
def freshDetachedLeaf (leaf index : ℕ) : KernelDetachedEntry :=
  clearDetachedEntry
    (if leaf * detachedLeafEntries + index < kernelHandleDetachedMax then
      leaf * detachedLeafEntries + index else 65535) 1

namespace HandleState

def setBatch (s : HandleState) (b : ℕ) (batch : KernelHandleTransferBatch) : HandleState :=
  { s with batches := Function.update s.batches b batch }

def setReservation (s : HandleState) (r : ℕ) (reservation : KernelHandleImportReservation) :
    HandleState :=
  { s with reservations := Function.update s.reservations r reservation }

def setStats (s : HandleState) (stats : KernelHandleTransferStats) : HandleState :=
  { s with transferStats := stats }

def ensureDetachedLeaf (s : HandleState) (granted : Bool) (slot : ℕ) : Bool × HandleState :=
  let leaf := slot / detachedLeafEntries
  if (s.detachedDirectory leaf).isSome then (true, s)
  else if granted = false then (false, s)
  else
    let limit := min ((leaf + 1) * detachedLeafEntries) kernelHandleDetachedMax
    (true, { s with
      detachedDirectory := Function.update s.detachedDirectory leaf (some (freshDetachedLeaf leaf))
      metadataUnits := s.metadataUnits + detachedLeafFrames
      detachedBackedLimit := max s.detachedBackedLimit limit })

def nextDetachedSlot (slot : ℕ) : ℕ := if slot + 1 = kernelHandleDetachedMax then 0 else slot + 1

/-- The loop of `claim_detached_entry`: the candidates it may still try, and the next one. -/
def claimScan (grant : DetachedGrant) :
    ℕ → ℕ → HandleState → KernelObjectCacheStatus × ℕ × HandleState
  | 0, _, s => (.unavailable, 0, s)
  | candidates + 1, candidate, s =>
    match s.ensureDetachedLeaf (grant.leaf candidate) candidate with
    | (false, s) => (.unavailable, 0, s)
    | (true, s) =>
      if (s.detachedEntryAt candidate).any fun available => available.state = .free then
        let s := { s with detachedNextSlot := nextDetachedSlot candidate }
        if grant.commit = false then (.corrupt, 0, s)
        else (.ok, candidate, { s with detachedUnits := s.detachedUnits + 1 })
      else claimScan grant candidates (nextDetachedSlot candidate) s

def claimDetachedEntry (s : HandleState) (grant : DetachedGrant) :
    KernelObjectCacheStatus × ℕ × HandleState :=
  if grant.attempt = false then (.unavailable, 0, s)
  else s.claimScan grant kernelHandleDetachedMax s.detachedNextSlot

/-- `kernel_allocation_release` of one detached entry. -/
def detachedUnitRelease (s : HandleState) : Bool × HandleState :=
  if s.detachedUnits = 0 then (false, s)
  else (true, { s with detachedUnits := s.detachedUnits - 1 })

/-- `free_detached_entry`, for the entry `e` at `slot`. -/
def freeDetachedEntry (s : HandleState) (slot : ℕ) (e : KernelDetachedEntry) : HandleState :=
  let generation := kernelGenerationNextMasked e.generation kernelDetachedGenerationMask
  let s := s.setDetached slot (clearDetachedEntry e.slot generation)
  let s := { s with
    detachedNextSlot := if e.slot < s.detachedNextSlot then e.slot else s.detachedNextSlot }
  flagUnless s.detachedUnitRelease

/-- The slot and the entry that a detached handle names, in the state asked for. -/
def findDetachedEntry (s : HandleState) (handle : ℕ) (requiredState : KernelDetachedState) :
    Option (ℕ × KernelDetachedEntry) :=
  let slot := handle % 65536
  let generation := handle / 65536
  if slot = 0 ∨ kernelHandleDetachedMax < slot ∨ generation = 0 then none
  else
    (s.detachedEntryAt (slot - 1)).bind fun candidate =>
      if candidate.generation ≠ generation ∨ candidate.state ≠ requiredState then none
      else some (slot - 1, candidate)

end HandleState

open HandleState

/-- The import hook, set once at boot: the rights an imported handle keeps. -/
abbrev KernelHandleImportRights := KernelObjectType → ℕ → HandleRights → HandleRights

variable (importRights : KernelHandleImportRights)

def transferableRights (type : KernelObjectType) (object : ℕ) (rights : HandleRights) : Bool :=
  decide (importRights type object rights &&& ~~~handleRightTransfer ≠ 0)

/-- The loop of `validate_transfer_sources`, after the handles `prior`. -/
def validateSources (s : HandleState) (τ : ℕ) (requiredRights : HandleRights) :
    List ℕ → List ℕ → KernelHandleStatus × HandleState
  | _, [] => (.ok, s)
  | prior, handle :: handles =>
    match findEntry s τ handle with
    | .error status => (status, s.noting status)
    | .ok i =>
      let source := s.entry τ i
      if source.rights &&& requiredRights ≠ requiredRights then (.accessDenied, s)
      else if source.object = 0 ∨ source.release = none ∨ source.type = .none then (.corrupt, s)
      else if transferableRights importRights source.type source.object source.rights = false then
        (.invalidArgument, s)
      else if handle ∈ prior then (.duplicate, s)
      else validateSources s τ requiredRights (prior ++ [handle]) handles

def validateTransferSources (s : HandleState) (τ : ℕ) (handles : List ℕ)
    (requiredRights : HandleRights) : KernelHandleStatus × HandleState :=
  if handles = [] ∨ kernelHandleTransferMax < handles.length ∨ requiredRights = 0 then
    (.invalidArgument, s)
  else validateSources importRights s τ requiredRights [] handles

def kernelHandleTransferValidate (s : HandleState) (τ : ℕ) (handles : List ℕ)
    (requiredRights : HandleRights) : KernelHandleStatus × HandleState :=
  validateTransferSources importRights s τ handles requiredRights

/-- How the loop of `kernel_handle_transfer_prepare` ends. -/
inductive PrepareEnd
  | complete | exhausted | corrupt
  deriving DecidableEq, Repr

/-- The loop of `kernel_handle_transfer_prepare`, after the entries `made`. -/
def prepareEach (τ : ℕ) (grants : ℕ → DetachedGrant) :
    List ℕ → List (ℕ × ℕ) → HandleState → PrepareEnd × List (ℕ × ℕ) × HandleState
  | [], made, s => (.complete, made, s)
  | handle :: handles, made, s =>
    match s.claimDetachedEntry (grants made.length) with
    | (.unavailable, _, s) => (.exhausted, made, s)
    | (.corrupt, _, s) => (.corrupt, made, s.flag)
    | (.ok, slot, s) =>
      match s.detachedEntryAt slot with
      | none => (.corrupt, made, s.flag)
      | some destination =>
        if destination.state ≠ .free then (.corrupt, made, s.flag)
        else
          let generation := normalGeneration destination.generation kernelDetachedGenerationMask
          match findEntry s τ handle with
          | .error _ =>
            (.corrupt, made, (s.setDetached slot { destination with generation := generation }).flag)
          | .ok i =>
            let source := s.entry τ i
            prepareEach τ grants handles (made ++ [(makeDetachedHandle slot generation, handle)])
              (s.setDetached slot { destination with
                object := source.object, retain := source.retain, release := source.release,
                releaseContext := source.releaseContext, rights := source.rights,
                type := source.type, state := .reserved, generation := generation })

/-- The entries that a failed or rolled back export reserved are freed, up to one that is not
there. -/
def freeReservedEach : List ℕ → HandleState → Bool × HandleState
  | [], s => (true, s)
  | handle :: handles, s =>
    match s.findDetachedEntry handle .reserved with
    | none => (false, s.flag)
    | some (slot, entry) => freeReservedEach handles (s.freeDetachedEntry slot entry)

def kernelHandleTransferPrepare (s : HandleState) (τ : ℕ) (handles : List ℕ)
    (requiredRights : HandleRights) (b : ℕ) (grants : ℕ → DetachedGrant) :
    KernelHandleStatus × HandleState :=
  match validateTransferSources importRights (s.setBatch b emptyTransferBatch) τ handles
      requiredRights with
  | (.ok, s) =>
    match prepareEach τ grants handles [] s with
    | (.corrupt, _, s) => (.corrupt, s)
    | (.exhausted, made, s) =>
      match freeReservedEach (made.map Prod.fst) s with
      | (false, s) => (.corrupt, s)
      | (true, s) =>
        (.transferPoolFull, s.setStats { s.transferStats with
          poolExhaustions := s.transferStats.poolExhaustions + 1 })
    | (.complete, made, s) =>
      let s := s.setBatch b { entries := made, state := .prepared }
      if kernelHandleDetachedMax - handles.length < s.transferStats.reservedDetached then
        (.corrupt, s.flag)
      else
        (.ok, s.setStats { s.transferStats with
          reservedDetached := s.transferStats.reservedDetached + handles.length
          preparedExports := s.transferStats.preparedExports + 1 })
  | (status, s) => (status, s)

/-- The first loop of `kernel_handle_transfer_narrow`: an answer other than `ok` ends the call. -/
def narrowCheck (masks : ℕ → HandleRights) (s : HandleState) :
    ℕ → List ℕ → KernelHandleStatus × HandleState
  | _, [] => (.ok, s)
  | index, handle :: handles =>
    match s.findDetachedEntry handle .reserved with
    | none => (.corrupt, s.flag)
    | some (_, entry) =>
      if transferableRights importRights entry.type entry.object (entry.rights &&& masks index) =
          false then (.invalidArgument, s)
      else narrowCheck masks s (index + 1) handles

def narrowEach (masks : ℕ → HandleRights) :
    ℕ → List ℕ → HandleState → KernelHandleStatus × HandleState
  | _, [], s => (.ok, s)
  | index, handle :: handles, s =>
    match s.findDetachedEntry handle .reserved with
    | none => (.corrupt, s.flag)
    | some (slot, entry) =>
      narrowEach masks (index + 1) handles
        (s.setDetached slot { entry with rights := entry.rights &&& masks index })

def kernelHandleTransferNarrow (s : HandleState) (b : ℕ) (masks : ℕ → HandleRights) :
    KernelHandleStatus × HandleState :=
  let batch := s.batches b
  if batch.state ≠ .prepared ∨ batch.detached = [] then (.invalidArgument, s)
  else match narrowCheck importRights masks s 0 batch.detached with
    | (.ok, s) => narrowEach masks 0 batch.detached s
    | (status, s) => (status, s)

/-- The first loop of `kernel_handle_transfer_commit_export`, over entries and sources. -/
def exportCheck (τ : ℕ) (s : HandleState) : List (ℕ × ℕ) → KernelHandleStatus × HandleState
  | [] => (.ok, s)
  | (detached, handle) :: rest =>
    match findEntry s τ handle with
    | .error status => (.invalidState, s.noting status)
    | .ok i =>
      match s.findDetachedEntry detached .reserved with
      | none => (.invalidState, s)
      | some (_, destination) =>
        let source := s.entry τ i
        if source.object ≠ destination.object ∨ source.retain ≠ destination.retain ∨
            source.release ≠ destination.release ∨
            source.releaseContext ≠ destination.releaseContext ∨
            destination.rights &&& ~~~source.rights ≠ 0 ∨ source.type ≠ destination.type then
          (.invalidState, s)
        else exportCheck τ s rest

def exportEach (τ : ℕ) : List (ℕ × ℕ) → HandleState → KernelHandleStatus × HandleState
  | [], s => (.ok, s)
  | (detached, handle) :: rest, s =>
    match findEntry s τ handle with
    | .error _ => (.corrupt, s.flag)
    | .ok i =>
      match s.findDetachedEntry detached .reserved with
      | none => (.corrupt, s.flag)
      | some (slot, destination) =>
        exportEach τ rest ((s.retireEntry τ i).setDetached slot
          { destination with state := .live, reference := (s.entry τ i).reference })

def kernelHandleTransferCommitExport (s : HandleState) (τ b : ℕ) :
    KernelHandleStatus × HandleState :=
  let batch := s.batches b
  let count := batch.entries.length
  if batch.state ≠ .prepared ∨ count = 0 then (.invalidArgument, s)
  else match exportCheck τ s batch.entries with
    | (.ok, s) =>
      if s.transferStats.reservedDetached < count ∨
          kernelHandleDetachedMax - count < s.transferStats.liveDetached then (.corrupt, s.flag)
      else match exportEach τ batch.entries s with
        | (.ok, s) =>
          let live := s.transferStats.liveDetached + count
          let s := s.setStats { s.transferStats with
            reservedDetached := s.transferStats.reservedDetached - count
            liveDetached := live
            committedExports := s.transferStats.committedExports + 1
            maxLiveDetached := max s.transferStats.maxLiveDetached live }
          (.ok, s.setBatch b { batch with state := .committed })
        | (status, s) => (status, s)
    | (status, s) => (status, s)

def kernelHandleTransferRollback (s : HandleState) (b : ℕ) : KernelHandleStatus × HandleState :=
  let batch := s.batches b
  let count := batch.entries.length
  if batch.state ≠ .prepared ∨ count = 0 then (.invalidArgument, s)
  else if batch.detached.any fun handle => (s.findDetachedEntry handle .reserved).isNone then
    (.invalidState, s)
  else if s.transferStats.reservedDetached < count then (.corrupt, s.flag)
  else match freeReservedEach batch.detached s with
    | (false, s) => (.corrupt, s)
    | (true, s) =>
      let s := s.setStats { s.transferStats with
        reservedDetached := s.transferStats.reservedDetached - count
        exportRollbacks := s.transferStats.exportRollbacks + 1 }
      (.ok, s.setBatch b emptyTransferBatch)

/-- The detached handles are all live and named once: else what is wrong with the first that is
not. -/
def liveOnce (s : HandleState) : List ℕ → List ℕ → KernelHandleStatus
  | _, [] => .ok
  | prior, handle :: handles =>
    if (s.findDetachedEntry handle .live).isNone then .invalidHandle
    else if handle ∈ prior then .duplicate
    else liveOnce s (prior ++ [handle]) handles

/-- A reserved slot goes back to its table, as `kernel_handle_import_reserve` does when the
allocator refuses the next one. -/
def unreserve (τ : ℕ) (s : HandleState) (slot : ℕ) : HandleState :=
  let s := s.setEntry τ slot { s.entry τ slot with reserved := .none }
  let s := flagUnless (s.releaseFreeSlot τ slot)
  flagUnless s.slotRelease

/-- The same where the second release is not tried once the first has failed; whether both were
done is the answer. -/
def unreserveChecked (τ : ℕ) (s : HandleState) (slot : ℕ) : Bool × HandleState :=
  let s := s.setEntry τ slot { s.entry τ slot with reserved := .none }
  match s.releaseFreeSlot τ slot with
  | (false, s) => (false, s)
  | (true, s) => s.slotRelease

/-- The loop of `kernel_handle_import_reserve`, from the slots it has still to visit, after those it
reserved with their handles. -/
def reserveEach (τ count : ℕ) (grants : ℕ → SlotGrant) :
    List ℕ → List (ℕ × ℕ) → HandleState → KernelHandleStatus × List (ℕ × ℕ) × HandleState
  | [], made, s => (.ok, made, s)
  | slot :: rest, made, s =>
    let entry := s.entry τ slot
    if count ≤ made.length then (.ok, made, s)
    else if entry.occupied ∨ entry.reserved ≠ .none then reserveEach τ count grants rest made s
    else if s.slotFree τ slot = false then (.corrupt, made, s.flag)
    else if (grants made.length).attempt = false then
      (.tableFull, [], (made.map Prod.fst).foldl (unreserve τ) s)
    else
      let generation := normalGeneration entry.generation kernelHandleGenerationMask
      let s := s.setSlotFree τ slot false
      let s := s.setEntry τ slot { entry with
        generation := generation, reserved := .importReserved }
      if (grants made.length).commit = false then
        let s := s.setEntry τ slot { entry with generation := generation, reserved := .none }
        let s := flagUnless (s.releaseFreeSlot τ slot)
        (.corrupt, [], ((made.map Prod.fst).foldl
          (fun s slot => flagUnless (unreserveChecked τ s slot)) s).flag)
      else
        reserveEach τ count grants rest (made ++ [(slot, makeHandle slot generation)]) s.slotCommit

def kernelHandleImportReserve (s : HandleState) (τ : ℕ) (detached : List ℕ) (r : ℕ)
    (grants : ℕ → SlotGrant) : KernelHandleStatus × HandleState :=
  let count := detached.length
  if kernelHandleTransferMax < count then (.invalidArgument, s)
  else
    let s := s.setReservation r emptyImportReservation
    match liveOnce s [] detached with
    | .ok =>
      if kernelHandleAvailable s τ < count then (.tableFull, s)
      else match reserveEach τ count grants (List.range kernelHandleMaxEntries) [] s with
        | (.ok, made, s) =>
          if made.length ≠ count then (.corrupt, s.flag)
          else (.ok, s.setReservation r { entries := made, active := true })
        | (status, _, s) => (status, s)
    | status => (status, s)

/-- The first loop of `kernel_handle_import_commit`: the reserved slots with their handles, and the
detached handles that are to fill them. -/
def importCheck (s : HandleState) (τ : ℕ) : List (ℕ × ℕ) → List ℕ → Bool
  | [], _ => true
  | _ :: _, [] => false
  | (slot, handle) :: rest, detached :: others =>
    let destination := s.entry τ slot
    if kernelHandleMaxEntries ≤ slot ∨ destination.occupied ∨
        destination.reserved ≠ .importReserved ∨ s.slotFree τ slot ∨
        handle ≠ makeHandle slot destination.generation ∨
        (s.findDetachedEntry detached .live).isNone then false
    else importCheck s τ rest others

def importEach (τ : ℕ) : List ℕ → List ℕ → HandleState → KernelHandleStatus × HandleState
  | [], _, s => (.ok, s)
  | _ :: _, [], s => (.corrupt, s.flag)
  | slot :: slots, detached :: others, s =>
    match s.findDetachedEntry detached .live with
    | none => (.corrupt, s.flag)
    | some (d, source) =>
      let s := s.setEntry τ slot { s.entry τ slot with
        object := source.object, retain := source.retain, release := source.release,
        releaseContext := source.releaseContext,
        rights := importRights source.type source.object source.rights, type := source.type,
        occupied := true, reserved := .none, reference := source.reference }
      importEach τ slots others (s.freeDetachedEntry d source)

def kernelHandleImportCommit (s : HandleState) (τ r : ℕ) (detached : List ℕ) :
    KernelHandleStatus × HandleState :=
  let reservation := s.reservations r
  let count := reservation.entries.length
  if reservation.active = false then (.invalidArgument, s)
  else if importCheck s τ reservation.entries detached = false then
    (.invalidState, s)
  else if s.transferStats.liveDetached < count then (.corrupt, s.flag)
  else match importEach importRights τ reservation.slots detached s with
    | (.ok, s) =>
      let s := s.setStats { s.transferStats with
        liveDetached := s.transferStats.liveDetached - count
        committedImports := s.transferStats.committedImports + 1 }
      (.ok, s.setReservation r emptyImportReservation)
    | (status, s) => (status, s)

def cancelEach (τ : ℕ) : List ℕ → HandleState → KernelHandleStatus × HandleState
  | [], s => (.ok, s)
  | slot :: slots, s =>
    match unreserveChecked τ s slot with
    | (false, s) => (.corrupt, s.flag)
    | (true, s) => cancelEach τ slots s

def kernelHandleImportCancel (s : HandleState) (τ r : ℕ) : KernelHandleStatus × HandleState :=
  let reservation := s.reservations r
  if reservation.active = false then (.invalidArgument, s)
  else if reservation.slots.any fun slot =>
      decide (kernelHandleMaxEntries ≤ slot) || (s.entry τ slot).occupied ||
        decide ((s.entry τ slot).reserved ≠ .importReserved) || s.slotFree τ slot then
    (.invalidState, s)
  else match cancelEach τ reservation.slots s with
    | (.ok, s) =>
      let s := s.setStats { s.transferStats with
        importRollbacks := s.transferStats.importRollbacks + 1 }
      (.ok, s.setReservation r emptyImportReservation)
    | (status, s) => (status, s)

/-- The last loop of `kernel_handle_detached_release`, over the entries it found. An entry that is
live has a callback; the loop goes on when it returns. -/
def releaseRest : List ℕ → HandleState → HandleState
  | [], s => s
  | slot :: rest, s =>
    match s.detachedEntryAt slot with
    | none => releaseRest rest s
    | some entry =>
      ((s.freeDetachedEntry slot entry).drop entry.reference entry.grant).pushFrame
        (.detachedRelease rest)

def kernelHandleDetachedRelease (s : HandleState) (detached : List ℕ) :
    KernelHandleStatus × HandleState :=
  let count := detached.length
  if kernelHandleTransferMax < count then (.invalidArgument, s)
  else match liveOnce s [] detached with
    | .ok =>
      if s.transferStats.liveDetached < count then (.corrupt, s.flag)
      else
        let s := s.setStats { s.transferStats with
          liveDetached := s.transferStats.liveDetached - count
          releasedDetached := s.transferStats.releasedDetached + count }
        (.ok, releaseRest (detached.map detachedSlot) s)
    | status => (status, s)

end Astra
