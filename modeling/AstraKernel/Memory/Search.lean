import AstraKernel.Bitmap

/-!
# The search for contiguous frames

`find_contiguous_frames` goes from one clear bit of the blocked bitmap to the next, a word at a time,
and past what cannot be a start: up to the next aligned frame, or past the first blocked frame of a
run that failed. A machine has less than 2^20 frames, so no sum here leaves 32 bits.
-/

namespace Astra

abbrev kernelPageSize : ℕ := 4096

/-- The bits of a word that are clear, from the bit `bit` on. -/
def clearBits (word : BitVec 32) (bit : ℕ) : BitVec 32 := ~~~word &&& (BitVec.allOnes 32 <<< bit)

theorem getLsbD_clearBits (word : BitVec 32) {bit i : ℕ} (hi : i < 32) :
    (clearBits word bit).getLsbD i = (decide (bit ≤ i) && !word.getLsbD i) := by
  have hsub : i - bit < 32 := by omega
  rw [clearBits, BitVec.getLsbD_and, BitVec.getLsbD_not, BitVec.getLsbD_shiftLeft,
    BitVec.getLsbD_allOnes]
  by_cases h : bit ≤ i
  · simp [hi, h, hsub, Nat.not_lt.2 h]
  · simp [h, Nat.lt_of_not_le h]

/-- The first clear bit from `index` to `last`, a word at a time. -/
def nextClearBit (bitmap : ℕ → BitVec 32) (index last : ℕ) : Option ℕ :=
  if index ≤ last then
    let clear := clearBits (bitmap (index / 32)) (index % 32)
    if clear ≠ 0 then
      let index := index - index % 32 + clear.ctz.toNat
      if index ≤ last then some index else none
    else nextClearBit bitmap ((index ||| 31) + 1) last
  else none
termination_by last + 1 - index
decreasing_by
  have : index ≤ index ||| 31 := Nat.left_le_or
  omega

/-- How many frames of a run are clear before its first blocked one. -/
def clearFrames (bitmap : ℕ → BitVec 32) (first : ℕ) : ℕ → ℕ → ℕ
  | 0, index => index
  | left + 1, index =>
    if bitTest bitmap (first + index) then index else clearFrames bitmap first left (index + 1)

theorem ctz_clearBits {word : BitVec 32} {bit : ℕ} (h : clearBits word bit ≠ 0) :
    (clearBits word bit).ctz.toNat < 32 ∧ bit ≤ (clearBits word bit).ctz.toNat ∧
      word.getLsbD (clearBits word bit).ctz.toNat = false := by
  have hlt : (clearBits word bit).ctz.toNat < 32 :=
    BitVec.lt_def.1 (BitVec.ctz_lt_iff_ne_zero.2 h)
  have hbit := BitVec.getLsbD_true_ctz_of_ne_zero h
  rw [getLsbD_clearBits word hlt] at hbit
  simp only [Bool.and_eq_true, decide_eq_true_eq, Bool.not_eq_eq_eq_not, Bool.not_true] at hbit
  exact ⟨hlt, hbit⟩

theorem nextClearBit_ge {bitmap : ℕ → BitVec 32} {last : ℕ} : ∀ {index i : ℕ},
    nextClearBit bitmap index last = some i → index ≤ i ∧ i ≤ last := by
  intro index i h
  induction index using nextClearBit.induct bitmap last with
  | case1 index hle clear hclear next hnext =>
    rw [nextClearBit, if_pos hle, if_pos hclear, if_pos hnext] at h
    cases h
    have hlow : index % 32 ≤ clear.ctz.toNat := (ctz_clearBits hclear).2.1
    change index ≤ index - index % 32 + clear.ctz.toNat ∧ next ≤ last
    omega
  | case2 index hle clear hclear next hnext =>
    rw [nextClearBit, if_pos hle, if_pos hclear, if_neg hnext] at h
    simp at h
  | case3 index hle clear hclear ih =>
    rw [nextClearBit, if_pos hle, if_neg hclear] at h
    have hor : index ≤ index ||| 31 := Nat.left_le_or
    have := ih h
    omega
  | case4 index hle =>
    rw [nextClearBit, if_neg hle] at h
    simp at h

structure KernelFrameMap where
  blockedBitmap : ℕ → BitVec 32
  ramBase : ℕ
  totalFrames : ℕ
  contiguousSearchHint : ℕ
  dmaZoneFirst : ℕ
  dmaZoneFrames : ℕ

namespace KernelFrameMap

variable (m : KernelFrameMap)

/-- `find_contiguous_frames`' loop from `first` on. -/
def findContiguousFrames (frameCount alignmentFrames last first : ℕ) : Option ℕ :=
  if first ≤ last then
    match h : nextClearBit m.blockedBitmap first last with
    | none => none
    | some first =>
      let misalignment := (m.ramBase / kernelPageSize + first) &&& (alignmentFrames - 1)
      if misalignment ≠ 0 then
        let skip := alignmentFrames - misalignment
        if skip > last - first then none
        else findContiguousFrames frameCount alignmentFrames last (first + skip)
      else
        let unavailable := clearFrames m.blockedBitmap first frameCount 0
        if unavailable = frameCount then some first
        else if unavailable + 1 > last - first then none
        else findContiguousFrames frameCount alignmentFrames last (first + unavailable + 1)
  else none
termination_by last + 1 - first
decreasing_by
  · have := nextClearBit_ge h
    have : misalignment ≤ alignmentFrames - 1 := Nat.and_le_right
    omega
  · have := nextClearBit_ge h
    omega

/-- The two passes of `allocate_frames`: from the hint up, and then what is below it. -/
def searchFromHint (frameCount alignmentFrames last : ℕ) : Option ℕ :=
  let available :=
    if m.contiguousSearchHint ≤ last then
      m.findContiguousFrames frameCount alignmentFrames last m.contiguousSearchHint
    else none
  match available with
  | some first => some first
  | none =>
    if m.contiguousSearchHint ≠ 0 then
      let wrapLast := m.contiguousSearchHint - 1
      let wrapLast := if wrapLast > last then last else wrapLast
      m.findContiguousFrames frameCount alignmentFrames wrapLast 0
    else none

/-- The last start `allocate_frames` permits: what is not for DMA must end before the zone. -/
def lastStart (frameCount : ℕ) (dma : Bool) : ℕ :=
  let last := m.totalFrames - frameCount
  if m.dmaZoneFrames ≠ 0 ∧ dma = false ∧ last > m.dmaZoneFirst then
    if m.dmaZoneFirst ≥ frameCount then m.dmaZoneFirst - frameCount else 0
  else last

/-- The frames `allocate_frames` comes to: for DMA those of its zone first. -/
def allocateSearch (frameCount alignmentFrames : ℕ) (dma : Bool) : Option ℕ :=
  let zone :=
    if m.dmaZoneFrames ≠ 0 ∧ dma = true ∧ frameCount ≤ m.dmaZoneFrames then
      m.findContiguousFrames frameCount alignmentFrames
        (m.dmaZoneFirst + m.dmaZoneFrames - frameCount) m.dmaZoneFirst
    else none
  match zone with
  | some first => some first
  | none => m.searchFromHint frameCount alignmentFrames (m.lastStart frameCount dma)

end KernelFrameMap

end Astra
