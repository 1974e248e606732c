import AstraKernel.Proofs.VfsReaps

/-!
# Finding and taking files

A file is found by its handle or by the token of its retention, and taken once no other call has it.
The generation of the slot tells whether it was given up meanwhile.
-/

namespace Astra

open Function

variable {s s' : AstraVfsService} {R T : VfsOwned} {f i : ℕ}

variable {allowed : AstraVfsFileState} {name : FileName} {handle token : ℕ}

theorem findFile_eq {session : ℕ} (h : (findFile s session handle).1 = some f) :
    f < s.fileHighWater ∧ (s.files f).state = .isOpen ∧ (s.files f).session = session ∧
      handle = handleMake f (s.files f).generation := by
  unfold findFile at h
  by_cases h₁ : handle = astraVfsFileInvalid ∨ handle &&& 0xffff = 0
  · simp [h₁] at h
  rw [if_neg h₁] at h
  by_cases h₂ : handleSlot handle ≥ s.fileHighWater
  · simp [h₂] at h
  rw [if_neg h₂] at h
  by_cases h₃ : (s.files (handleSlot handle)).state ≠ .isOpen ∨
      (s.files (handleSlot handle)).session = 0
  · simp [h₃] at h
  rw [if_neg h₃] at h
  by_cases h₄ : (s.files (handleSlot handle)).generation ≠ handleGeneration handle
  · simp [h₄] at h
  rw [if_neg h₄] at h
  by_cases h₅ : (s.files (handleSlot handle)).session ≠ session
  · simp [h₅] at h
  rw [if_neg h₅] at h
  obtain rfl : handleSlot handle = f := by simpa using h
  push Not at h₁ h₃ h₄ h₅
  refine ⟨by omega, h₃.1, h₅, ?_⟩
  rw [h₄, handleMake_of_parts h₁.2]

theorem findRetained_eq (h : findRetained s token = some f) :
    f < s.fileHighWater ∧ (s.files f).retained = true ∧
      ((s.files f).state = .isOpen ∨ (s.files f).state = .detached) ∧
      token = handleMake f (s.files f).generation := by
  unfold findRetained at h
  by_cases h₁ : token = astraVfsFileInvalid ∨ token &&& 0xffff = 0
  · simp [h₁] at h
  rw [if_neg h₁] at h
  by_cases h₂ : handleSlot token ≥ s.fileHighWater
  · simp [h₂] at h
  rw [if_neg h₂] at h
  by_cases h₃ : (s.files (handleSlot token)).retained = false ∨
      (s.files (handleSlot token)).generation ≠ handleGeneration token ∨
      ((s.files (handleSlot token)).state ≠ .isOpen ∧
        (s.files (handleSlot token)).state ≠ .detached)
  · simp [h₃] at h
  rw [if_neg h₃] at h
  obtain rfl : handleSlot token = f := by simpa using h
  simp only [not_or, not_and_or, not_not] at h₁ h₃
  refine ⟨by omega, by simpa using h₃.1, h₃.2.2, ?_⟩
  rw [h₃.2.1, handleMake_of_parts h₁.2]

structure Takes (s : AstraVfsService) (f : ℕ) (allowed : AstraVfsFileState) (name : FileName) :
    Prop where
  holds : Holds (s.files f) f ⟨f, (s.files f).node, name⟩
  state : (s.files f).state = allowed
  waits : FileWaits s f (s.files f) ⟨f, (s.files f).generation, allowed, name⟩

theorem Takes.not_closing (h : Takes s f allowed name) : (s.files f).state ≠ .closing := by
  rw [h.state]
  rcases h.waits.2.1 with ha | ha <;> dsimp only at ha <;> simp [ha]

section

variable (h : VfsSound s R)
include h

theorem VfsSound.findFile_takes {session : ℕ} (hf : (Astra.findFile s session handle).1 = some f) :
    Takes s f .isOpen (.handle session handle) := by
  obtain ⟨hlt, hopen, hse, hh⟩ := findFile_eq hf
  have hlive : (s.files f).Live := by constructor <;> simp [hopen]
  have hname : ∀ session' handle', FileName.handle session handle = .handle session' handle' →
      (s.files f).session = session' ∧ session' ≠ 0 := by
    intro session' handle' he
    cases he
    exact ⟨hse, hse ▸ (h.slot f).owned (.inl hopen)⟩
  refine ⟨⟨hlive, rfl, hh, hname⟩, hopen, hlt, .inl rfl, fun _ _ _ => rfl, hh, s.reuses f, le_rfl,
    (h.slot f).generation hlt, fun _ => ⟨hlive, fun session' handle' he => ?_⟩⟩
  exact .inl (hname session' handle' he).1

theorem VfsSound.findRetained_takes
    (hf : Astra.findRetained s token = some f) : Takes s f (s.files f).state (.token token) := by
  obtain ⟨hlt, _, hstate, ht⟩ := findRetained_eq hf
  have hlive : (s.files f).Live := by
    rcases hstate with hs | hs <;> constructor <;> simp [hs]
  exact ⟨⟨hlive, rfl, ht, by simp⟩, rfl, hlt, hstate, by simp, ht, s.reuses f, le_rfl,
    (h.slot f).generation hlt, fun _ => ⟨hlive, by simp⟩⟩

def AcquireKept (R : VfsOwned) (f generation : ℕ) (allowed : AstraVfsFileState) (name : FileName)
    (r : Acquired × AstraVfsService) : Prop :=
  match r.1 with
  | .taken => VfsSound r.2 (R.hold ⟨f, (r.2.files f).node, name⟩)
  | .waits => VfsSound r.2 (R.wait ⟨f, generation, allowed, name⟩)
  | .refused => VfsSound r.2 R

theorem VfsSound.fileAcquireLoop (ht : Takes s f allowed name) :
    AcquireKept R f (s.files f).generation allowed name (Astra.fileAcquireLoop s f) := by
  unfold Astra.fileAcquireLoop
  dsimp only
  split
  · by_cases hw : s.stateWait = false ∨ (s.files f).waiters = astraVfsWaitersMax
    · rw [if_pos hw]
      exact h
    · rw [if_neg hw]
      refine (h.setWaiters ht.waits.1 _).wait (f := f) rfl ?_
      rw [setFile_self]
      exact ht.waits
  · rename_i hactive
    have := h.take (f := f) rfl (by simpa using hactive) ht.not_closing ht.holds
    unfold AcquireKept
    rw [setFile_self]
    exact this

theorem VfsSound.fileAcquireFor (ht : Takes s f allowed name) :
    AcquireKept R f (s.files f).generation allowed name (Astra.fileAcquireFor s f allowed) := by
  rw [Astra.fileAcquireFor, if_neg (not_not.2 ht.state)]
  exact h.fileAcquireLoop ht

end

theorem VfsSound.fileAcquireWoken {generation : ℕ}
    (h : VfsSound s (R.wait ⟨f, generation, allowed, name⟩)) (hreuse : s.reuses f < 65535)
    (waited : Bool) :
    AcquireKept R f generation allowed name
      (Astra.fileAcquireWoken s f generation allowed waited) := by
  obtain ⟨h₁, hw⟩ := h.unwait (f := f) rfl
  obtain ⟨hlt, hallowed, hhandle, hname, use, huse, hgen, hlive⟩ := hw
  have h₂ := h₁.setWaiters hlt ((s.files f).waiters - 1)
  unfold Astra.fileAcquireWoken
  dsimp only
  split
  · exact h₂
  by_cases hgone : (s.files f).state ≠ allowed ∨ (s.files f).generation ≠ generation
  · rw [setFile_self, if_pos hgone]
    exact h₂
  rw [setFile_self, if_neg hgone]
  push Not at hgone
  obtain ⟨hstate, hsame⟩ := hgone
  -- The slot has the generation the call saw, and so was not given up since.
  have hr : s.reuses f = use := by
    refine generationAfter_inj hreuse (by omega) ?_
    rw [← (h₁.slot f).generation hlt, hsame]
    exact hgen
  obtain ⟨hl, hse⟩ := hlive hr
  have hname' : ∀ session handle, name = .handle session handle →
      (s.files f).session = session ∧ session ≠ 0 := by
    intro session handle he
    have h0 := (h₁.slot f).owned (.inl (hstate.trans (hhandle session handle he)))
    have hs := (hse session handle he).resolve_right h0
    exact ⟨hs, hs ▸ h0⟩
  have ht : Takes (s.setFile f { s.files f with waiters := (s.files f).waiters - 1 }) f allowed
      name := by
    refine ⟨?_, ?_, ?_⟩ <;> rw [setFile_self]
    · exact ⟨hl, rfl, hname.trans (by rw [hsame]), hname'⟩
    · exact hstate
    · exact ⟨hlt, hallowed, hhandle, by rw [hsame]; exact hname, use, huse, by rw [hsame]; exact hgen,
        fun _ => ⟨hl, hse⟩⟩
  have := h₂.fileAcquireLoop ht
  rw [setFile_self] at this
  rwa [← hsame]

theorem VfsSound.token_mem (h : VfsSound s R) (hret : (s.files f).retained = true) :
    handleMake f (s.files f).generation ∈ R.tokens := by
  have ht := (h.slot f).tokens
  rw [if_pos hret] at ht
  have : handleMake f (s.files f).generation ∈ (R.at_ f).tokens := by simp [ht]
  exact (Multiset.mem_filter.1 this).1

theorem Frame.over_tokens (frame : Frame) (R : VfsOwned) : (frame.over R).tokens = R.tokens := by
  cases frame <;> rfl

section

variable {frame : RequestFrame} {session : ℕ} {request : AstraVfsRequest}

theorem VfsSound.releaseBase {handle : ℕ} {base : Option (ℕ × ℕ)}
    (h : VfsSound s (T.holdAll (baseFile session handle base))) :
    VfsSound (Astra.releaseAll s (base.toList.map Prod.fst)) T := by
  simpa using h.releaseAll

theorem VfsSound.refusedFile (purpose : Purpose) (h : VfsSound s (purpose.over R)) :
    VfsKept R (Astra.refusedFile s purpose) := by
  cases purpose with
  | work frame name work => exact VfsSound.finish frame h _
  | openAt frame session request => exact VfsSound.finish (.request frame) h _
  | firstBase frame session request => exact VfsSound.finish (.request frame) h _
  | secondBase frame session request first =>
    exact VfsSound.finish (.request frame) (VfsSound.releaseBase h) _

variable {first : Option (ℕ × ℕ)} {purpose : Purpose}

theorem VfsSound.pathRefused
    (h : VfsSound s ((R.reserve frame.slot).holdAll (baseFile session request.file first)))
    (status : AstraVfsStatus) : VfsKept R (Astra.pathRefused s frame first status) :=
  VfsSound.finish (.request frame) h.releaseBase _

theorem pathFiles_first (R : VfsOwned) (session first second : ℕ) (base : Option (ℕ × ℕ))
    (same : Bool) : R.holdAll ((PathBases.mk base none same).files session first second) =
      R.holdAll (baseFile session first base) := by
  simp [PathBases.files, baseFile]

theorem pathFiles_second (R : VfsOwned) (session first second g node : ℕ)
    (base : Option (ℕ × ℕ)) :
    R.holdAll ((PathBases.mk base (some (g, node)) false).files session first second) =
      (R.holdAll (baseFile session first base)).hold ⟨g, node, .handle session second⟩ := by
  rw [PathBases.files, VfsOwned.holdAll_append]
  exact R.holdAll_hold _ _

theorem VfsSound.pathTaken
    (h : VfsSound s (((R.reserve frame.slot).holdAll (baseFile session request.file first)).hold
      ⟨f, (s.files f).node, .handle session (secondId frame.operation request)⟩)) :
    VfsKept R (Astra.pathTaken s frame session request first f) := by
  refine ⟨?_, trivial⟩
  dsimp only [VfsPoint.over]
  rwa [pathFiles_second]

theorem VfsSound.pathSecond
    (h : VfsSound s ((R.reserve frame.slot).holdAll (baseFile session request.file first))) :
    VfsKept R (Astra.pathSecond s frame session request first) := by
  have hfirst : ∀ same, VfsKept R
      (s, .park (.pathCall frame session request ⟨first, none, same⟩)) := by
    intro same
    refine ⟨?_, trivial⟩
    dsimp only [VfsPoint.over]
    rwa [pathFiles_first]
  refine .ite (fun _ => hfirst false) fun _ => .ite (fun _ => hfirst true) fun _ => ?_
  cases hfind : Astra.findFile s session (secondId frame.operation request) with
  | mk found status =>
    cases found with
    | none => exact h.pathRefused status
    | some f =>
      have ht := h.findFile_takes (f := f) (by rw [hfind])
      refine .ite (fun _ => h.pathRefused _) fun _ => ?_
      have hk := h.fileAcquireFor ht
      unfold AcquireKept at hk
      dsimp only [fileAcquire]
      cases hacq : (Astra.fileAcquireFor s f .isOpen).1 with
      | taken =>
        rw [hacq] at hk
        exact VfsSound.pathTaken hk
      | waits =>
        rw [hacq] at hk
        exact ⟨hk, trivial⟩
      | refused =>
        rw [hacq] at hk
        exact VfsSound.refusedFile (.secondBase frame session request first) hk

theorem VfsSound.handleOpen (h : VfsSound s T) (session : ℕ) (request : AstraVfsRequest) :
    match Astra.handleOpen s session request with
    | (.inl _, s') => VfsSound s' T
    | (.inr (i, f), s') => VfsSound s' (T.open_ ⟨f, i, session⟩) := by
  unfold Astra.handleOpen
  cases hfind : Astra.findSession s session with
  | none => exact h
  | some i =>
    obtain ⟨hi, rfl, hid⟩ := findSession_eq hfind
    dsimp only
    by_cases hinv : openInvalid request = true
    · rw [if_pos hinv]
      exact h
    rw [if_neg hinv]
    obtain ⟨h₁, hsess, hcap, hslot⟩ := h.openSlot
    cases hopen : Astra.openSlot s with
    | mk found s₁ =>
      rw [hopen] at h₁ hsess hcap hslot
      cases found with
      | none => exact h₁
      | some f =>
        obtain ⟨hf, hfree⟩ := hslot f rfl
        have := h₁.reserveFile hf hfree (hcap.symm ▸ hi) (by rw [hsess]; exact hid)
        rw [hsess] at this
        rw [← hsess]
        rw [← hsess] at this
        exact this

theorem VfsSound.openBeneath {directory : Option (ℕ × ℕ)}
    (h : VfsSound s ((R.reserve frame.slot).holdAll (baseFile session request.file directory))) :
    VfsKept R (Astra.openBeneath s frame session request directory) := by
  have hk := h.handleOpen session request
  unfold Astra.openBeneath
  cases hopen : Astra.handleOpen s session request with
  | mk answer s₁ =>
    rw [hopen] at hk
    cases answer with
    | inl status => exact VfsSound.finish (.request frame) (VfsSound.releaseBase hk) _
    | inr slots => exact ⟨hk, trivial⟩

theorem VfsSound.takenFile
    (h : VfsSound s ((purpose.over R).hold ⟨f, (s.files f).node, purpose.name⟩)) :
    VfsKept R (Astra.takenFile s f purpose) := by
  cases purpose with
  | work frame name work =>
    cases name with
    | handle session handle => exact ⟨h, trivial⟩
    | token token =>
      refine .ite (fun hfind => ⟨h, ?_⟩) fun _ => ?_
      · obtain ⟨_, hret, _, htoken⟩ := findRetained_eq hfind
        have hm := h.token_mem hret
        rw [← htoken] at hm
        exact (congrArg (token ∈ ·) (frame.over_tokens R)).mp hm
      exact VfsSound.finish frame (h.fileRelease (f := f) rfl) _
  | openAt frame session request => exact VfsSound.openBeneath h
  | firstBase frame session request => exact VfsSound.pathSecond h
  | secondBase frame session request first => exact VfsSound.pathTaken h

theorem AcquireKept.goes {generation : ℕ} {allowed : AstraVfsFileState}
    {r : Acquired × AstraVfsService}
    (h : AcquireKept (purpose.over R) f generation allowed purpose.name r) :
    VfsKept R (acquiredFile r purpose f generation allowed) := by
  obtain ⟨a, s₁⟩ := r
  cases a with
  | taken => exact VfsSound.takenFile h
  | waits => exact ⟨h, trivial⟩
  | refused => exact VfsSound.refusedFile purpose h

theorem VfsSound.requestFile (purpose : Purpose) {session handle : ℕ}
    (h : VfsSound s (purpose.over R)) (hname : purpose.name = .handle session handle)
    (hover : purpose.over R = purpose.frame.over R) (check : AstraVfsOpenFile → AstraVfsStatus) :
    VfsKept R (Astra.requestFile s session handle check purpose) := by
  have hfinish : ∀ r, VfsKept R (purpose.frame.finish s r) := fun r =>
    VfsSound.finish purpose.frame (hover ▸ h) r
  unfold Astra.requestFile
  cases hfind : Astra.findFile s session handle with
  | mk found status =>
    cases found with
    | none => exact hfinish _
    | some f =>
      refine .ite (fun _ => hfinish _) fun _ => AcquireKept.goes ?_
      rw [hname]
      exact h.fileAcquireFor (h.findFile_takes (by rw [hfind]))

theorem VfsSound.workFile (frame : Frame) (h : VfsSound s (frame.over R)) (session handle : ℕ)
    (check : AstraVfsOpenFile → AstraVfsStatus) (work : FileWork) :
    VfsKept R (Astra.workFile s frame session handle check work) :=
  VfsSound.requestFile (.work frame (.handle session handle) work) h rfl rfl check

theorem VfsSound.retainedFile (h : VfsSound s R) (token : ℕ)
    (check : AstraVfsOpenFile → AstraVfsStatus) (work : FileWork) :
    VfsKept R (Astra.retainedFile s token check work) := by
  unfold Astra.retainedFile
  cases hfind : Astra.findRetained s token with
  | none => exact VfsSound.finish .retained h _
  | some f =>
    refine .ite (fun _ => VfsSound.finish .retained h _) fun _ => AcquireKept.goes ?_
    exact h.fileAcquireFor (h.findRetained_takes hfind)

end

end Astra
