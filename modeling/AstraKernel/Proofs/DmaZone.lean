import AstraKernel.Memory.Frames
import AstraKernel.Proofs.FrameSearch

/-!
# The frames kept for DMA

The scattered path steps over the zone. The contiguous one ends its search before it, but only where
a run there ends before the memory does and fits below the zone; elsewhere it takes frames of the
zone for anybody.
-/

namespace Astra

open List

namespace KernelFrameMap

variable {m : KernelFrameMap} {frameCount stop index : ℕ} {found : List ℕ}

theorem scatteredFrom_outside (hfound : ∀ i ∈ found, m.inDmaZone i = false) :
    ∀ i ∈ m.scatteredFrom frameCount stop index found, m.inDmaZone i = false := by
  induction index, found using scatteredFrom.induct m frameCount stop with
  | case1 index found hmore hnext =>
    rw [scatteredFrom, if_pos hmore]
    split
    · exact hfound
    · rename_i h
      rw [hnext] at h
      cases h
  | case2 index found hmore i hnext hzone ih =>
    rw [scatteredFrom, if_pos hmore]
    split
    · exact hfound
    · rename_i h
      cases hnext.symm.trans h
      rw [if_pos hzone]
      exact ih hfound
  | case3 index found hmore i hnext hzone ih =>
    rw [scatteredFrom, if_pos hmore]
    split
    · exact hfound
    · rename_i h
      cases hnext.symm.trans h
      rw [if_neg hzone]
      refine ih fun j hj => ?_
      rcases mem_append.1 hj with hj | hj
      · exact hfound j hj
      · rw [mem_singleton.1 hj]
        exact Bool.eq_false_iff.2 hzone
  | case4 index found hmore =>
    rw [scatteredFrom, if_neg hmore]
    exact hfound

/-- The end of the search is put before the zone: the run fits below the zone, and its last start in
the memory lies behind the zone's first frame. -/
def EndsBeforeZone (m : KernelFrameMap) (frameCount : ℕ) : Prop :=
  m.dmaZoneFrames = 0 ∨ frameCount ≤ m.dmaZoneFirst ∧ m.dmaZoneFirst < m.totalFrames - frameCount

theorem allocateSearch_outside {alignmentFrames first : ℕ} (hcount : 0 < frameCount)
    (hmask : IsMask alignmentFrames) (hends : m.EndsBeforeZone frameCount)
    (hfirst : m.allocateSearch frameCount alignmentFrames false = some first) :
    ∀ i ∈ List.range' first frameCount, m.inDmaZone i = false := by
  intro i hi
  rw [mem_range'_1] at hi
  refine decide_eq_false fun hzone => ?_
  obtain hnone | ⟨hbelow, hlast⟩ := hends
  · exact hzone.1 hnone
  have hstart : m.lastStart frameCount false = m.dmaZoneFirst - frameCount := by
    unfold lastStart
    rw [if_pos ⟨hzone.1, rfl, hlast⟩, if_pos hbelow]
  obtain ⟨_, -, hdma, -⟩ | hsearched := allocateSearch_searched (m := m) hcount hmask false
  · exact Bool.false_ne_true hdma
  rw [hfirst, hstart] at hsearched
  have hle : first ≤ m.dmaZoneFirst - frameCount := hsearched.2.1
  omega

end KernelFrameMap

namespace KernelFrameAllocator

variable {s : KernelFrameAllocator}

theorem scatteredSearch_outside (s : KernelFrameAllocator) (frameCount : ℕ) :
    ∀ i ∈ s.scatteredSearch frameCount, s.inDmaZone i = false := by
  have hfirst : ∀ i ∈ s.scatteredFrom frameCount s.totalFrames s.scatteredSearchHint [],
      s.inDmaZone i = false :=
    KernelFrameMap.scatteredFrom_outside fun _ h => absurd h not_mem_nil
  unfold scatteredSearch
  dsimp only
  split_ifs
  · exact KernelFrameMap.scatteredFrom_outside hfirst
  · exact hfirst

variable {grant : FrameGrant} {s' : KernelFrameAllocator} {state : KernelFrameState}

theorem allocateFrames_outside {frameCount alignmentFrames owner : ℕ} (hstate : state ≠ .dma) (hends : s.EndsBeforeZone frameCount) :
    ∀ i ∈ (s.allocateFrames frameCount alignmentFrames state owner grant).2.2,
      s.inDmaZone i = false := by
  have hempty : ∀ i ∈ ([] : List ℕ), s.inDmaZone i = false := fun _ h => absurd h not_mem_nil
  unfold allocateFrames
  rw [decide_eq_false hstate]
  split
  · exact hempty
  rename_i hargs
  split
  · exact hempty
  split
  · exact hempty
  split
  · exact hempty
  rename_i first hfirst
  dsimp only
  split
  · exact hempty
  split
  · exact hempty
  · push Not at hargs
    obtain ⟨hcount, -, ⟨hne, hpower⟩, -⟩ := hargs
    exact KernelFrameMap.allocateSearch_outside (Nat.pos_of_ne_zero hcount)
      (KernelFrameMap.isMask_of_power hne hpower) hends hfirst

theorem allocatePages_outside {frameCount owner : ℕ} :
    ∀ i ∈ (s.allocatePages frameCount state owner grant).2.2, s.inDmaZone i = false := by
  have hempty : ∀ i ∈ ([] : List ℕ), s.inDmaZone i = false := fun _ h => absurd h not_mem_nil
  unfold allocatePages
  split
  · exact hempty
  split
  · exact hempty
  split
  · exact hempty
  split
  · exact hempty
  dsimp only
  split
  · exact hempty
  split
  · exact hempty
  · exact scatteredSearch_outside s frameCount

structure SameZone (s s' : KernelFrameAllocator) : Prop where
  first : s'.dmaZoneFirst = s.dmaZoneFirst
  frames : s'.dmaZoneFrames = s.dmaZoneFrames
  total : s'.totalFrames = s.totalFrames

theorem SameZone.refl (s : KernelFrameAllocator) : SameZone s s := ⟨rfl, rfl, rfl⟩

theorem SameZone.trans {s₁ s' : KernelFrameAllocator} (h : SameZone s s₁) (h' : SameZone s₁ s') :
    SameZone s s' :=
  ⟨h'.first.trans h.first, h'.frames.trans h.frames, h'.total.trans h.total⟩

theorem SameZone.inDmaZone_eq (h : SameZone s s') (i : ℕ) : s'.inDmaZone i = s.inDmaZone i := by
  unfold KernelFrameMap.inDmaZone
  rw [h.first, h.frames]

theorem SameZone.endsBeforeZone (h : SameZone s s') {frameCount : ℕ}
    (he : s.EndsBeforeZone frameCount) : s'.EndsBeforeZone frameCount := by
  unfold KernelFrameMap.EndsBeforeZone at he ⊢
  rwa [h.first, h.frames, h.total]

theorem perform_sameZone (s : KernelFrameAllocator) (call : FrameCall) :
    SameZone s (call.perform s).2.1 := by
  cases call with
  | allocate frameCount alignmentFrames state owner grant =>
    dsimp only [FrameCall.perform]
    unfold allocateFrames
    split
    · exact .refl s
    split
    · exact .refl s
    split
    · exact .refl s
    split
    · exact .refl s
    dsimp only
    split
    · exact .refl s
    split
    · exact .refl s
    · exact ⟨rfl, rfl, rfl⟩
  | allocatePages frameCount state owner grant =>
    dsimp only [FrameCall.perform]
    unfold allocatePages
    split
    · exact .refl s
    split
    · exact .refl s
    split
    · exact .refl s
    split
    · exact .refl s
    dsimp only
    split
    · exact .refl s
    split
    · exact .refl s
    · exact ⟨rfl, rfl, rfl⟩
  | release frame => exact ⟨rfl, rfl, rfl⟩

end KernelFrameAllocator

/-- A contiguous call that is not for DMA ends its search before the zone. -/
def FrameCall.EndsBeforeZone (s : KernelFrameAllocator) : FrameCall → Prop
  | .allocate frameCount _ state _ _ => state ≠ .dma → s.EndsBeforeZone frameCount
  | _ => True

theorem perform_outside {s : KernelFrameAllocator} {call : FrameCall}
    (hends : call.EndsBeforeZone s) (hdma : call.state ≠ some .dma) :
    ∀ i ∈ (call.perform s).2.2, s.inDmaZone i = false := by
  cases call with
  | allocate frameCount alignmentFrames state owner grant =>
    have hstate : state ≠ .dma := fun h => hdma (congrArg some h)
    exact KernelFrameAllocator.allocateFrames_outside hstate (hends hstate)
  | allocatePages frameCount state owner grant =>
    exact KernelFrameAllocator.allocatePages_outside
  | release frame => exact fun _ h => absurd h not_mem_nil

theorem run_outside {s₀ : KernelFrameAllocator} : ∀ {calls : List FrameCall}
    {s : KernelFrameAllocator}, s₀.SameZone s → (∀ call ∈ calls, call.EndsBeforeZone s₀) →
    ∀ answer ∈ s.run calls, answer.1.state ≠ some .dma →
      ∀ i ∈ answer.2, s₀.inDmaZone i = false
  | [], _, _, _, _, hanswer => absurd hanswer not_mem_nil
  | call :: calls, s, hzone, hends, answer, hanswer => by
    rw [KernelFrameAllocator.run, mem_cons] at hanswer
    obtain ⟨hcall, hrest⟩ := forall_mem_cons.1 hends
    obtain rfl | hanswer := hanswer
    · intro hdma i hi
      rw [← hzone.inDmaZone_eq]
      refine perform_outside ?_ hdma i hi
      cases call with
      | allocate frameCount alignmentFrames state owner grant =>
        exact fun hstate => hzone.endsBeforeZone (hcall hstate)
      | allocatePages => trivial
      | release => trivial
    · exact run_outside (hzone.trans (s.perform_sameZone call)) hrest answer hanswer

/-- Whatever is asked, answered and released: where every contiguous call that is not for DMA ends its
search before the zone, no frame of the zone is given to anything but DMA. -/
theorem zone_kept_for_dma {s : KernelFrameAllocator} {calls : List FrameCall}
    (hends : ∀ call ∈ calls, call.EndsBeforeZone s) :
    ∀ answer ∈ s.run calls, answer.1.state ≠ some .dma → ∀ i ∈ answer.2, s.inDmaZone i = false :=
  run_outside (.refl s) hends

/-! ## A machine of 4096 frames -/

/-- The kernel and its log have the last 32 frames, and the tables the first 34. -/
def smallMachine : KernelBootFrames where
  ramBase := 0x02000000
  totalFrames := 4096
  blockedBitmap word := if word < 127 then 0 else BitVec.allOnes 32
  usableFrames := 4064
  metadataFirst := 0
  metadataFrames := 34

theorem smallMachine_boots : ∃ s, kernelMemoryInit smallMachine = some s ∧ s.dmaZoneFirst = 1982 ∧
    s.dmaZoneFrames = 2050 ∧ s.totalFrames = 4096 ∧
    ∀ i < 2114, bitTest s.blockedBitmap (34 + i) = false := by
  have h : ((kernelMemoryInit smallMachine).map fun s =>
      (s.dmaZoneFirst, s.dmaZoneFrames, s.totalFrames,
        (List.range 2114).all fun i => !bitTest s.blockedBitmap (34 + i))) =
        some (1982, 2050, 4096, true) := by
    decide +kernel
  simpa only [Option.map_eq_some_iff, Prod.mk.injEq, all_eq_true, mem_range,
    Bool.not_eq_eq_eq_not, Bool.not_true] using h

/-- The call asks for nothing that is refused. -/
def granted : FrameGrant := ⟨true, some false, true⟩

theorem zone_kept_for_dma_boot : ∃ s, kernelMemoryInit smallMachine = some s ∧
    ∀ answer ∈ s.run [.allocate 16 1 .process 7 granted, .allocatePages 3 .process 7 granted,
      .release 34], answer.1.state ≠ some .dma → ∀ i ∈ answer.2, s.inDmaZone i = false := by
  obtain ⟨s, hboot, hfirst, -, htotal, -⟩ := smallMachine_boots
  refine ⟨s, hboot, zone_kept_for_dma fun call hcall => ?_⟩
  simp only [mem_cons, not_mem_nil, or_false] at hcall
  obtain rfl | rfl | rfl := hcall
  · intro _
    right
    rw [hfirst, htotal]
    decide
  · trivial
  · trivial

/-- The kernel asks for as many frames as lie from the zone's first one on to the end of the memory,
and the run it is given goes into the zone. -/
theorem zone_given_away : ∃ s, kernelMemoryInit smallMachine = some s ∧
    ∃ answer ∈ s.run [.allocate 2114 1 .kernel kernelOwnerCore granted],
      answer.1.state ≠ some .dma ∧ ∃ i ∈ answer.2, s.inDmaZone i = true := by
  obtain ⟨s, hboot, hfirst, hframes, htotal, hclear⟩ := smallMachine_boots
  refine ⟨s, hboot, _, mem_singleton_self _, (fun h => by cases h), ?_⟩
  have hlast : s.lastStart 2114 false = 1982 := by
    unfold KernelFrameMap.lastStart
    simp [hfirst, htotal]
  obtain ⟨hsound, hcomplete⟩ := KernelFrameMap.searchFromHint_correct s.toKernelFrameMap 1982
    (show (2114 : ℕ) ≠ 0 by decide) (show (1 : ℕ) ≠ 0 by decide) (by decide)
  obtain ⟨first, hsearch⟩ := hcomplete.2 ⟨34, by decide, hclear, Nat.mod_one _⟩
  have hle := (hsound first hsearch).1
  have hall : s.allocateSearch 2114 1 false = some first := by
    unfold KernelFrameMap.allocateSearch
    simp [hlast, hsearch]
  refine ⟨1982, ?_, ?_⟩
  · have hargs : ¬((2114 : ℕ) = 0 ∨ 2114 > s.totalFrames ∨ ¬((1 : ℕ) ≠ 0 ∧ 1 &&& (1 - 1) = 0) ∨
        KernelFrameState.kernel.isDynamic = false ∨ kernelOwnerCore = 0) := by
      rw [htotal]
      decide
    dsimp only [FrameCall.perform]
    unfold KernelFrameAllocator.allocateFrames
    rw [if_neg hargs, decide_eq_false (show KernelFrameState.kernel ≠ .dma by decide), hall]
    simp only [granted, KernelFrameAllocator.protectedReserveAdmits, true_or, if_true,
      Bool.true_eq_false, if_false, mem_range'_1]
    omega
  · unfold KernelFrameMap.inDmaZone
    rw [hfirst, hframes]
    decide

end Astra
