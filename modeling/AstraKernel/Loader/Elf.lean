import Mathlib.Data.List.Nodup

/-!
# The segment blocks of an ELF plan

`elf.c`: a plan keeps its first segments in itself and the others in a chain of blocks. The plan is
copied by value from the stream that builds it; one copy owns the chain. What the checks say of the
headers and of the finished plan is given with the call, and so is whether a block can be allocated;
of the plan only the chain is kept.
-/

namespace Astra

open Function

abbrev kernelElfSegmentInline : ℕ := 4
/-- How many segments a block has room for: a page, less its link, its frame and its count. -/
abbrev kernelElfBlockSegments : ℕ := (4096 - 4 - 4 - 2 * 2) / 24

/-- The chain from `segment_blocks` on; its last block is `segment_blocks_tail`. -/
structure KernelElfImage where
  segmentCount : ℕ
  segmentBlocks : List ℕ
  ownsSegmentBlocks : Bool
  deriving DecidableEq

def KernelElfImage.clear : KernelElfImage := ⟨0, [], false⟩

/-- The blocks that were allocated, numbered in their order, with the segments in each and how often
it was given back. -/
structure ElfBlocks where
  next : ℕ
  count : ℕ → ℕ
  releases : ℕ → ℕ

/-- `segment_block_release` over a chain; it stops at a block that is not there any more. -/
def releaseChain : ElfBlocks → List ℕ → ElfBlocks × Bool
  | m, [] => (m, true)
  | m, b :: chain =>
    let m' := { m with releases := update m.releases b (m.releases b + 1) }
    if m.releases b = 0 then releaseChain m' chain else (m', false)

def appendSegment (m : ElfBlocks) (plan : KernelElfImage) (granted : Bool) :
    Option (KernelElfImage × ElfBlocks) :=
  if plan.segmentCount < kernelElfSegmentInline then some (plan, m)
  else if plan.segmentBlocks.getLast?.all fun b => m.count b = kernelElfBlockSegments then
    if granted then
      some ({ plan with segmentBlocks := plan.segmentBlocks ++ [m.next] },
        ⟨m.next + 1, update m.count m.next 1, update m.releases m.next 0⟩)
    else none
  else
    let b := plan.segmentBlocks.getLast?.getD 0
    some (plan, { m with count := update m.count b (m.count b + 1) })

/-- A stream, whose plan is `image none`, the other plans, and the blocks. Whether the stream has
been begun and not been discarded since, no field of the stream says. -/
structure ElfWorld where
  image : Option ℕ → KernelElfImage
  blocks : ElfBlocks
  headerCount : ℕ
  headerIndex : ℕ
  failed : Bool
  complete : Bool
  begun : Bool

inductive BeginCheck
  | invalidArgument | refused | accepted (headerCount : ℕ)
  deriving DecidableEq

inductive HeaderCheck
  | refused | passed | load
  deriving DecidableEq

inductive ElfCall
  | streamBegin (check : BeginCheck)
  | addHeader (check : HeaderCheck) (granted : Bool)
  | finish (plan : ℕ) (passes : Bool)
  | imageMove (destination : ℕ) (source : Option ℕ)
  | imageDiscard (plan : ℕ)
  | streamDiscard
  deriving DecidableEq

namespace ElfWorld

variable (w : ElfWorld)

def setImage (x : Option ℕ) (plan : KernelElfImage) : ElfWorld :=
  { w with image := update w.image x plan }

/-- `kernel_elf_image_discard` -/
def imageDiscard (x : Option ℕ) : ElfWorld × Bool :=
  let (m, released) := if (w.image x).ownsSegmentBlocks then
    releaseChain w.blocks (w.image x).segmentBlocks else (w.blocks, true)
  ({ w with image := update w.image x .clear, blocks := m }, released)

def imageMove (destination source : Option ℕ) : ElfWorld :=
  if destination = source then w
  else (w.setImage destination (w.image source)).setImage source ⟨0, [], false⟩

def streamFail : ElfWorld := { (w.imageDiscard none).1 with failed := true }

def streamBegin : BeginCheck → ElfWorld
  | .invalidArgument => w
  | check =>
    let s := { w.setImage none ⟨0, [], true⟩ with
      headerCount := 0, headerIndex := 0, failed := false, complete := false, begun := true }
    match check with
    | .accepted headerCount => { s with headerCount := headerCount }
    | _ => s.streamFail

def addHeader (check : HeaderCheck) (granted : Bool) : ElfWorld :=
  if w.failed ∨ w.complete ∨ w.headerIndex ≥ w.headerCount then w
  else match check with
  | .refused => w.streamFail
  | .passed => { w with headerIndex := w.headerIndex + 1 }
  | .load =>
    match appendSegment w.blocks (w.image none) granted with
    | none => w.streamFail
    | some (plan, m) =>
      let plan := { plan with segmentCount := plan.segmentCount + 1 }
      { w.setImage none plan with blocks := m, headerIndex := w.headerIndex + 1 }

def finish (p : ℕ) (passes : Bool) : ElfWorld :=
  let w := w.setImage (some p) .clear
  if w.failed ∨ w.complete ∨ w.headerIndex ≠ w.headerCount then w
  else if (w.image none).segmentCount = 0 ∨ passes = false then w.streamFail
  else
    { w.setImage (some p) { w.image none with ownsSegmentBlocks := false } with complete := true }

def step : ElfCall → ElfWorld
  | .streamBegin check => w.streamBegin check
  | .addHeader check granted => w.addHeader check granted
  | .finish p passes => w.finish p passes
  | .imageMove destination source => w.imageMove (some destination) source
  | .imageDiscard p => (w.imageDiscard (some p)).1
  | .streamDiscard => { (w.imageDiscard none).1 with begun := false }

/-- The plan has blocks to give back. -/
def Holds (x : Option ℕ) : Prop :=
  (w.image x).ownsSegmentBlocks = true ∧ (w.image x).segmentBlocks ≠ []

/-- A plan is written over only when it has no blocks to give back; headers go to a stream that has
been begun and not discarded, and its plan leaves it when it is complete. -/
def Allowed : ElfCall → Prop
  | .streamBegin _ => ¬w.Holds none
  | .addHeader _ _ => w.begun = true
  | .finish p _ => ¬w.Holds (some p)
  | .imageMove destination source =>
    some destination ≠ source → ¬w.Holds (some destination) ∧ (source = none → w.complete = true)
  | .imageDiscard _ => True
  | .streamDiscard => True

instance (x : Option ℕ) : Decidable (w.Holds x) := inferInstanceAs (Decidable (_ ∧ _))

instance : (call : ElfCall) → Decidable (w.Allowed call)
  | .streamBegin _ => inferInstanceAs (Decidable (¬_))
  | .addHeader _ _ => inferInstanceAs (Decidable (_ = _))
  | .finish _ _ => inferInstanceAs (Decidable (¬_))
  | .imageMove _ _ => inferInstanceAs (Decidable (_ → _ ∧ _))
  | .imageDiscard _ => .isTrue trivial
  | .streamDiscard => .isTrue trivial

def run : ElfWorld → List ElfCall → ElfWorld
  | w, [] => w
  | w, call :: calls => (w.step call).run calls

def AllAllowed : ElfWorld → List ElfCall → Prop
  | _, [] => True
  | w, call :: calls => w.Allowed call ∧ (w.step call).AllAllowed calls

instance decidableAllAllowed : ∀ (w : ElfWorld) (calls : List ElfCall),
    Decidable (w.AllAllowed calls)
  | _, [] => .isTrue trivial
  | w, call :: calls =>
    have := decidableAllAllowed (w.step call) calls
    inferInstanceAs (Decidable (_ ∧ _))

/-- Nothing begun, every plan clear. -/
def start : ElfWorld := ⟨fun _ => .clear, ⟨0, fun _ => 0, fun _ => 0⟩, 0, 0, false, false, false⟩

end ElfWorld

end Astra
