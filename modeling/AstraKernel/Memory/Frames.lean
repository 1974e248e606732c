import AstraKernel.Memory.Search

/-!
# Frames for the callers

`allocate_frames` and `allocate_pages` over the blocked bitmap, with the counter of free frames and
the reserves. What the allocation sites and the owner ledgers answer comes with each call; a frame
is given back with its last reference.
-/

namespace Astra

open Function

abbrev kernelOwnerCore : ℕ := 0x4b45524e
abbrev kernelEmergencyReserveFrames : ℕ := 32
abbrev kernelDmaZoneFrames : ℕ := (0x01000000 - 0x00800000) / kernelPageSize + 2

/-- `ASTRA_AREA_SIZE_MAX` -/
abbrev astraAreaSizeMax : ℕ := 0x48000000 - 0x40000000

abbrev kernelControlRecoveryFrameMax : ℕ :=
  1 + (astraAreaSizeMax + 128 * (64 * kernelPageSize) - 1) / (128 * (64 * kernelPageSize)) +
    (astraAreaSizeMax + 64 * kernelPageSize - 1) / (64 * kernelPageSize) +
    (astraAreaSizeMax / kernelPageSize * 4 + kernelPageSize - 1) / kernelPageSize + 2

inductive KernelFrameState
  | unclassified | free | firmware | earlyLog | kernel | pageTable | process | cowReadOnly | cowWrite
  | shared | dma | device | emergencyReserved
  deriving DecidableEq, Repr

def KernelFrameState.isDynamic : KernelFrameState → Bool
  | .kernel | .pageTable | .process | .cowReadOnly | .cowWrite | .shared | .dma | .device => true
  | _ => false

inductive KernelMemoryStatus
  | ok | invalidArgument | invalidMap | outOfMemory | notOwned | busy | overflow
  deriving DecidableEq, Repr

structure KernelFrameAllocator extends KernelFrameMap where
  scatteredSearchHint : ℕ
  freeFrames : ℕ
  coreReserveFrames : ℕ
  protectedReserveFrames : ℕ

/-- What a call is answered on its way: whether the site lets it try, whether its owner has a ledger
or gets one, and if so a protected one, and whether the site takes the frames into account. -/
structure FrameGrant where
  attempt : Bool
  ledger : Option Bool
  commit : Bool

namespace KernelFrameMap

variable (m : KernelFrameMap)

def inDmaZone (frame : ℕ) : Bool :=
  decide (m.dmaZoneFrames ≠ 0 ∧ m.dmaZoneFirst ≤ frame ∧ frame < m.dmaZoneFirst + m.dmaZoneFrames)

/-- The rest of a pass of `allocate_pages`, which has found some of its frames. -/
def scatteredFrom (frameCount stop : ℕ) (index : ℕ) (found : List ℕ) : List ℕ :=
  if index < stop ∧ found.length < frameCount then
    match _h : nextClearBit m.blockedBitmap index (stop - 1) with
    | none => found
    | some index =>
      if m.inDmaZone index then scatteredFrom frameCount stop (m.dmaZoneFirst + m.dmaZoneFrames) found
      else scatteredFrom frameCount stop (index + 1) (found ++ [index])
  else found
termination_by stop - index
decreasing_by
  · rename_i hzone
    have := nextClearBit_ge _h
    simp only [inDmaZone, decide_eq_true_eq] at hzone
    omega
  · have := nextClearBit_ge _h
    omega

/-- The loop of `find_high_contiguous` below `index`, after a run of clear frames. -/
def highRun (blocked : ℕ → BitVec 32) (frameCount : ℕ) : ℕ → ℕ → Option ℕ
  | 0, _ => none
  | index + 1, run =>
    if bitTest blocked index then highRun blocked frameCount index 0
    else if run + 1 = frameCount then some index
    else highRun blocked frameCount index (run + 1)

def findHighContiguous (frameCount : ℕ) : Option ℕ :=
  if frameCount = 0 ∨ frameCount > m.totalFrames then none
  else highRun m.blockedBitmap frameCount m.totalFrames 0

end KernelFrameMap

/-! ## The boot -/

/-- The frames of a boot map whose ranges `kernel_memory_init` accepts: those of its usable ranges
are clear, and the allocator's own tables come to lie in some of them. -/
structure KernelBootFrames where
  ramBase : ℕ
  totalFrames : ℕ
  blockedBitmap : ℕ → BitVec 32
  usableFrames : ℕ
  metadataFirst : ℕ
  metadataFrames : ℕ

/-- The frames of the emergency reserve are the highest clear ones. -/
def reserveEmergency : ℕ → ℕ → (ℕ → BitVec 32) → ℕ × (ℕ → BitVec 32)
  | 0, reserved, blocked => (reserved, blocked)
  | index + 1, reserved, blocked =>
    if reserved < kernelEmergencyReserveFrames then
      if bitTest blocked index then reserveEmergency index reserved blocked
      else reserveEmergency index (reserved + 1) (bitSet blocked index)
    else (reserved, blocked)

/-- The frames of the tables are blocked, with the free frames that are left. -/
def blockMetadata (totalFrames : ℕ) :
    List ℕ → ℕ → (ℕ → BitVec 32) → Option (ℕ × (ℕ → BitVec 32))
  | [], freeFrames, blocked => some (freeFrames, blocked)
  | frame :: frames, freeFrames, blocked =>
    if frame ≥ totalFrames ∨ bitTest blocked frame ∨ freeFrames = 0 then none
    else blockMetadata totalFrames frames (freeFrames - 1) (bitSet blocked frame)

/-- `kernel_memory_init`, from the map's classified frames on. -/
def kernelMemoryInit (boot : KernelBootFrames) : Option KernelFrameAllocator := do
  let coreReserve := min kernelControlRecoveryFrameMax boot.totalFrames
  let (reserved, blocked) := reserveEmergency boot.totalFrames 0 boot.blockedBitmap
  let (freeFrames, blocked) ← blockMetadata boot.totalFrames
    (List.range' boot.metadataFirst boot.metadataFrames) boot.usableFrames blocked
  let m : KernelFrameMap := ⟨blocked, boot.ramBase, boot.totalFrames, 0, 0, 0⟩
  let m := match m.findHighContiguous kernelDmaZoneFrames with
    | some first => { m with dmaZoneFirst := first, dmaZoneFrames := kernelDmaZoneFrames }
    | none => m
  if reserved ≠ kernelEmergencyReserveFrames ∨ freeFrames < reserved then none
  else some { m with
    scatteredSearchHint := 0
    freeFrames := freeFrames - reserved
    coreReserveFrames := coreReserve
    protectedReserveFrames := min kernelControlRecoveryFrameMax (boot.totalFrames - coreReserve) }

/-! ## The calls -/

namespace KernelFrameAllocator

variable (s : KernelFrameAllocator)

def protectedReserveAdmits (owner : ℕ) (ownerProtected : Bool) (frameCount : ℕ)
    (usesDmaZone : Bool) : Bool :=
  if owner = kernelOwnerCore ∨ usesDmaZone then true
  else
    let floor := s.coreReserveFrames + s.dmaZoneFrames
    let floor := if ownerProtected then floor else floor + s.protectedReserveFrames
    decide (s.freeFrames ≥ floor ∧ frameCount ≤ s.freeFrames - floor)

/-- The frames are taken. -/
def take (frames : List ℕ) : KernelFrameAllocator :=
  { s with
    blockedBitmap := frames.foldl bitSet s.blockedBitmap
    freeFrames := s.freeFrames - frames.length }

/-- Where a search goes on from a frame. -/
def hintAt (frame : ℕ) : ℕ := if frame ≥ s.totalFrames then 0 else frame

def allocateFrames (frameCount alignmentFrames : ℕ) (state : KernelFrameState) (owner : ℕ)
    (grant : FrameGrant) : KernelMemoryStatus × KernelFrameAllocator × List ℕ :=
  if frameCount = 0 ∨ frameCount > s.totalFrames ∨
      ¬(alignmentFrames ≠ 0 ∧ alignmentFrames &&& (alignmentFrames - 1) = 0) ∨
      state.isDynamic = false ∨ owner = 0 then (.invalidArgument, s, [])
  else if grant.attempt = false then (.outOfMemory, s, [])
  else
    match grant.ledger with
    | none => (.outOfMemory, s, [])
    | some ownerProtected =>
      match s.allocateSearch frameCount alignmentFrames (state = .dma) with
      | none => (.outOfMemory, s, [])
      | some first =>
        let usesDmaZone := decide (s.dmaZoneFrames ≠ 0 ∧ first ≥ s.dmaZoneFirst ∧
          first + frameCount ≤ s.dmaZoneFirst + s.dmaZoneFrames)
        if s.protectedReserveAdmits owner ownerProtected frameCount usesDmaZone = false then
          (.outOfMemory, s, [])
        else if grant.commit = false then (.invalidMap, s, [])
        else
          let frames := List.range' first frameCount
          (.ok, { s.take frames with contiguousSearchHint := s.hintAt (first + frameCount) }, frames)

/-- The frames `allocate_pages` comes to: from the hint up, and then what is below it. -/
def scatteredSearch (frameCount : ℕ) : List ℕ :=
  let found := s.scatteredFrom frameCount s.totalFrames s.scatteredSearchHint []
  if found.length < frameCount then s.scatteredFrom frameCount s.scatteredSearchHint 0 found
  else found

def allocatePages (frameCount : ℕ) (state : KernelFrameState) (owner : ℕ) (grant : FrameGrant) :
    KernelMemoryStatus × KernelFrameAllocator × List ℕ :=
  if frameCount = 0 ∨ frameCount > s.totalFrames ∨ state.isDynamic = false ∨ owner = 0 then
    (.invalidArgument, s, [])
  else if grant.attempt = false then (.outOfMemory, s, [])
  else
    match grant.ledger with
    | none => (.outOfMemory, s, [])
    | some ownerProtected =>
      if s.protectedReserveAdmits owner ownerProtected frameCount false = false then
        (.outOfMemory, s, [])
      else
        let frames := s.scatteredSearch frameCount
        if frames.length ≠ frameCount then (.outOfMemory, s, [])
        else if grant.commit = false then (.invalidMap, s, [])
        else
          (.ok, { s.take frames with
            scatteredSearchHint := s.hintAt (frames.getLastD 0 + 1) }, frames)

/-- `release_final_frame`, for a frame that is not of the emergency reserve. -/
def releaseFinalFrame (frame : ℕ) : KernelFrameAllocator :=
  { s with blockedBitmap := bitClear s.blockedBitmap frame, freeFrames := s.freeFrames + 1 }

end KernelFrameAllocator

/-- What is asked of the allocator. A frame comes back with its last reference, as its owner's
`kernel_memory_release` or `kernel_memory_release_owner` finds. -/
inductive FrameCall
  | allocate (frameCount alignmentFrames : ℕ) (state : KernelFrameState) (owner : ℕ)
      (grant : FrameGrant)
  | allocatePages (frameCount : ℕ) (state : KernelFrameState) (owner : ℕ) (grant : FrameGrant)
  | release (frame : ℕ)

namespace FrameCall

/-- What the frames of the call are for. -/
def state : FrameCall → Option KernelFrameState
  | .allocate _ _ state _ _ | .allocatePages _ state _ _ => some state
  | .release _ => none

def perform (s : KernelFrameAllocator) :
    FrameCall → KernelMemoryStatus × KernelFrameAllocator × List ℕ
  | .allocate frameCount alignmentFrames state owner grant =>
    s.allocateFrames frameCount alignmentFrames state owner grant
  | .allocatePages frameCount state owner grant => s.allocatePages frameCount state owner grant
  | .release frame => (.ok, s.releaseFinalFrame frame, [])

end FrameCall

/-- The calls one after the other, each with the frames it is given. -/
def KernelFrameAllocator.run (s : KernelFrameAllocator) :
    List FrameCall → List (FrameCall × List ℕ)
  | [] => []
  | call :: calls => (call, (call.perform s).2.2) :: (call.perform s).2.1.run calls

end Astra
