import AstraKernel.Proofs.HandleImports

/-!
# The pool keeps its shape

Only a claim adds leaves or moves the place where the next search starts, and a release moves that
down; every other step leaves the shape alone.
-/

namespace Astra

open HandleState

def HandleState.shape (s : HandleState) : (ℕ → Bool) × ℕ × ℕ × ℕ :=
  (fun leaf => (s.detachedDirectory leaf).isSome, s.detachedBackedLimit, s.detachedNextSlot,
    s.metadataUnits)

section shape

variable (s : HandleState) (g : HandleGrant) (F : KernelHandleImportRights) (τ i : ℕ)

@[simp] theorem shape_setEntry (e : KernelHandleEntry) : (s.setEntry τ i e).shape = s.shape := rfl
@[simp] theorem shape_setSlotFree (b : Bool) : (s.setSlotFree τ i b).shape = s.shape := rfl
@[simp] theorem shape_flag : s.flag.shape = s.shape := rfl
@[simp] theorem shape_slotCommit : s.slotCommit.shape = s.shape := rfl
@[simp] theorem shape_acquire : (s.acquire g).shape = s.shape := rfl
@[simp] theorem shape_drop (t : ℕ) (g : HandleGrant) : (s.drop t g).shape = s.shape := rfl
@[simp] theorem shape_lose : (s.lose g).shape = s.shape := rfl
@[simp] theorem shape_pushFrame (f : ReleaseFrame) : (s.pushFrame f).shape = s.shape := rfl
@[simp] theorem shape_setBatch (b : ℕ) (batch : KernelHandleTransferBatch) :
    (s.setBatch b batch).shape = s.shape := rfl
@[simp] theorem shape_setReservation (r : ℕ) (reservation : KernelHandleImportReservation) :
    (s.setReservation r reservation).shape = s.shape := rfl
@[simp] theorem shape_setStats (stats : KernelHandleTransferStats) :
    (s.setStats stats).shape = s.shape := rfl

@[simp] theorem shape_setDetached (d : ℕ) (e : KernelDetachedEntry) :
    (s.setDetached d e).shape = s.shape := by
  unfold HandleState.shape
  rw [funext (isSome_setDetached s d e)]
  rfl

@[simp] theorem shape_flagUnless (r : Bool × HandleState) : (flagUnless r).shape = r.2.shape := by
  obtain ⟨_ | _, s⟩ := r <;> rfl

@[simp] theorem shape_noting (status : KernelHandleStatus) : (s.noting status).shape = s.shape := by
  cases status <;> rfl

@[simp] theorem shape_slotRelease : s.slotRelease.2.shape = s.shape := by
  unfold slotRelease
  split_ifs <;> rfl

@[simp] theorem shape_releaseFreeSlot : (s.releaseFreeSlot τ i).2.shape = s.shape := by
  unfold releaseFreeSlot
  split_ifs <;> rfl

@[simp] theorem shape_retireAndDrop : (s.retireAndDrop τ i).shape = s.shape := by
  simp [retireAndDrop, retireEntry]

@[simp] theorem shape_closeMark : (closeMark τ s i).shape = s.shape := by
  unfold closeMark
  dsimp only
  split_ifs <;> simp

@[simp] theorem shape_closeMarks (τ : ℕ) : ∀ (l : List ℕ) (s : HandleState),
    (l.foldl (closeMark τ) s).shape = s.shape
  | [], _ => rfl
  | i :: l, s => by
    rw [List.foldl_cons, shape_closeMarks τ l, shape_closeMark]

@[simp] theorem shape_closeAllRest (τ : ℕ) : ∀ (l : List ℕ) (s : HandleState),
    (closeAllRest τ l s).shape = s.shape
  | [], _ => rfl
  | i :: l, s => by
    rw [closeAllRest]
    split
    · exact shape_closeAllRest τ l s
    · split
      · rw [shape_closeAllRest τ l, shape_retireAndDrop]
      · rw [shape_pushFrame, shape_retireAndDrop]

@[simp] theorem shape_closeAll : (kernelHandleCloseAll s τ).shape = s.shape := by
  simp [kernelHandleCloseAll]

@[simp] theorem shape_closeTypeRest (τ : ℕ) (type : KernelObjectType) :
    ∀ (l : List ℕ) (s : HandleState), (closeTypeRest τ type l s).shape = s.shape
  | [], _ => rfl
  | slot :: l, s => by
    rw [closeTypeRest]
    split
    · exact shape_closeTypeRest τ type l s
    · split
      · exact shape_noting s _
      · split
        · rw [shape_closeTypeRest τ type l, shape_retireAndDrop]
        · rw [shape_pushFrame, shape_retireAndDrop]

theorem shape_claimFreeSlot : (s.claimFreeSlot τ).2.shape = s.shape := by
  unfold claimFreeSlot
  split
  · rfl
  · split_ifs <;> rfl

theorem shape_install (type : KernelObjectType) (rights : HandleRights) (object : ℕ)
    (retain release : Option ℕ) (context : ℕ) (grant : SlotGrant) :
    (install s τ type rights object retain release context grant).2.shape = s.shape := by
  unfold install
  split
  · rfl
  split
  · rfl
  have hclaim := shape_claimFreeSlot s τ
  generalize s.claimFreeSlot τ = r at hclaim ⊢
  rcases r with ⟨_ | i, s₁⟩
  · exact hclaim
  · dsimp only at hclaim ⊢
    split_ifs <;> simpa using hclaim

theorem shape_duplicateInto (σ source : ℕ) (rights : HandleRights) (τ : ℕ) (grant : SlotGrant) :
    (kernelHandleDuplicateInto s σ source rights τ grant).2.shape = s.shape := by
  unfold kernelHandleDuplicateInto
  split
  · rfl
  rcases findEntry s σ source with status | j
  · exact shape_noting s status
  dsimp only
  split
  · rfl
  split
  · rfl
  have hclaim := shape_claimFreeSlot s τ
  generalize s.claimFreeSlot τ = r at hclaim ⊢
  rcases r with ⟨_ | i, s₁⟩
  · exact hclaim
  dsimp only at hclaim ⊢
  split
  · simpa using hclaim
  split
  · simpa using hclaim
  rcases (s.entry σ j).release with _ | c
  · simpa using hclaim
  · simpa using hclaim

theorem shape_cloneEntries (σ τ : ℕ) (grants : ℕ → SlotGrant) : ∀ (l : List ℕ) (s : HandleState),
    (cloneEntries σ τ grants l s).2.shape = s.shape
  | [], _ => rfl
  | i :: l, s => by
    rw [cloneEntries]
    split
    · rw [shape_cloneEntries σ τ grants l, shape_setEntry]
    split
    · rw [shape_cloneEntries σ τ grants l, shape_setEntry]
    split
    · simp
    split
    · simp
    split
    · rw [shape_cloneEntries σ τ grants l]
      simp
    · split <;> simp

theorem shape_lookup (τ handle : ℕ) (type : KernelObjectType) (rights : HandleRights) :
    (kernelHandleLookup s τ handle type rights).2.shape = s.shape ∧
      (kernelHandleLookupContext s τ handle type rights).2.shape = s.shape ∧
      (kernelHandleLookupAny s τ handle rights).2.shape = s.shape := by
  unfold kernelHandleLookup kernelHandleLookupContext kernelHandleLookupAny
  rcases findEntry s τ handle with status | i
  · simp
  · dsimp only
    refine ⟨?_, ?_, ?_⟩ <;> split_ifs <;> rfl

theorem shape_validateSources (F : KernelHandleImportRights) (τ : ℕ) (required : HandleRights) :
    ∀ prior handles : List ℕ, (validateSources F s τ required prior handles).2.shape = s.shape
  | _, [] => rfl
  | prior, handle :: handles => by
    rw [validateSources]
    rcases findEntry s τ handle with status | i
    · exact shape_noting s status
    · dsimp only
      split_ifs
      · rfl
      · rfl
      · rfl
      · rfl
      · exact shape_validateSources F τ required _ handles

theorem shape_validateTransferSources (handles : List ℕ) (required : HandleRights) :
    (validateTransferSources F s τ handles required).2.shape = s.shape := by
  unfold validateTransferSources
  split_ifs
  · rfl
  · exact shape_validateSources s F τ required [] handles

theorem shape_perform {c : HandleCall} (hc : c.moves = false) :
    (s.perform F c).2.shape = s.shape := by
  cases c with
  | setOwner τ owner processId =>
    show (kernelHandleTableSetOwner s τ owner processId).2.shape = s.shape
    unfold kernelHandleTableSetOwner
    split_ifs <;> rfl
  | cloneTable σ τ grants =>
    show (kernelHandleCloneTable s σ τ grants).2.shape = s.shape
    unfold kernelHandleCloneTable
    split_ifs
    · rfl
    · exact shape_cloneEntries σ τ grants _ s
  | install τ type rights object release context grant =>
    exact shape_install s τ type rights object none release context grant
  | installCloneable τ type rights object retain release context grant =>
    show (kernelHandleInstallCloneable s τ type rights object retain release context grant).2.shape = _
    unfold kernelHandleInstallCloneable
    split_ifs
    · rfl
    · exact shape_install s τ type rights object retain release context grant
  | duplicate τ source rights grant => exact shape_duplicateInto s τ source rights τ grant
  | duplicateInto σ source rights τ grant => exact shape_duplicateInto s σ source rights τ grant
  | lookup τ handle type rights => exact (shape_lookup s τ handle type rights).1
  | lookupContext τ handle type rights => exact (shape_lookup s τ handle type rights).2.1
  | lookupAny τ handle rights => exact (shape_lookup s τ handle .none rights).2.2
  | setContext τ handle type context =>
    show (kernelHandleSetContext s τ handle type context).2.shape = s.shape
    unfold kernelHandleSetContext
    rcases findEntry s τ handle with status | i
    · exact shape_noting s status
    · dsimp only
      split_ifs <;> rfl
  | close τ handle =>
    show (kernelHandleClose s τ handle).2.shape = s.shape
    unfold kernelHandleClose
    rcases findEntry s τ handle with status | i
    · exact shape_noting s status
    · dsimp only
      rcases (s.entry τ i).release with _ | c
      · simp
      · simp
  | closeAll τ =>
    dsimp only [perform]
    rw [shape_closeAll]
  | closeType τ type =>
    show (kernelHandleCloseType s τ type).shape = s.shape
    unfold kernelHandleCloseType
    split_ifs
    · rfl
    · exact shape_closeTypeRest τ type _ s
  | transferValidate τ handles required => exact shape_validateTransferSources s F τ handles required
  | transferPrepare | transferNarrow | transferCommitExport | transferRollback | importReserve
  | importCommit | importCancel | detachedRelease => simp [HandleCall.moves] at hc

end shape

section moves

variable {s s' : HandleState}

theorem PoolShape.of_shape (h : PoolShape s) (he : s'.shape = s.shape) : PoolShape s' := by
  unfold HandleState.shape at he
  simp only [Prod.mk.injEq] at he
  obtain ⟨h1, h2, h3, h4⟩ := he
  exact h.same (congrFun h1) h2 h3.le h4

theorem freeReservedEach_shape : ∀ (handles : List ℕ) (s : HandleState), PoolShape s →
    PoolShape (freeReservedEach handles s).2
  | [], _, h => h
  | handle :: handles, s, h => by
    rw [freeReservedEach]
    rcases s.findDetachedEntry handle .reserved with _ | ⟨slot, e⟩
    · exact h.of_shape (shape_flag s)
    · exact freeReservedEach_shape handles _ (h.freed slot e)

theorem prepareEach_shape (τ : ℕ) (grants : ℕ → DetachedGrant) : ∀ (handles : List ℕ)
    (made : List (ℕ × ℕ)) (s : HandleState), PoolShape s →
    PoolShape (prepareEach τ grants handles made s).2.2
  | [], _, _, h => h
  | handle :: handles, made, s, h => by
    obtain ⟨s₁, hs₁, -, hclaim⟩ := claimDetachedEntry_shape h (grants made.length)
    rw [prepareEach]
    rcases hclaim with hclaim | ⟨d, e, hd, hf, hclaim⟩
    · rw [hclaim]
      exact hs₁
    have hlt := hs₁.lt_limit hd
    split_ifs at hclaim
    · rw [hclaim]
      exact (hs₁.moved hlt s₁.detachedUnits).of_shape rfl
    · have h₂ := hs₁.moved hlt (s₁.detachedUnits + 1)
      obtain ⟨s₂, hs₂⟩ : ∃ s₂ : HandleState, s₂ = { s₁ with
        detachedNextSlot := nextDetachedSlot d, detachedUnits := s₁.detachedUnits + 1 } := ⟨_, rfl⟩
      rw [← hs₂] at hclaim h₂
      rw [hclaim]
      dsimp only
      rcases s₂.detachedEntryAt d with _ | destination
      · exact h₂.of_shape (shape_flag s₂)
      dsimp only
      split_ifs
      · exact h₂.of_shape (shape_flag s₂)
      rcases findEntry s₂ τ handle with status | i
      · exact h₂.of_shape (by simp)
      · exact prepareEach_shape τ grants handles _ _ (h₂.setDetached d _)

theorem narrowCheck_shape (s : HandleState) (F : KernelHandleImportRights) (masks : ℕ → HandleRights) :
    ∀ (index : ℕ) (handles : List ℕ),
      (narrowCheck F masks s index handles).2.shape = s.shape
  | _, [] => rfl
  | index, handle :: handles => by
    rw [narrowCheck]
    rcases s.findDetachedEntry handle .reserved with _ | ⟨slot, e⟩
    · rfl
    · dsimp only
      split_ifs
      · rfl
      · exact narrowCheck_shape s F masks (index + 1) handles

theorem narrowEach_shape (masks : ℕ → HandleRights) : ∀ (index : ℕ) (handles : List ℕ)
    (s : HandleState), (narrowEach masks index handles s).2.shape = s.shape
  | _, [], _ => rfl
  | index, handle :: handles, s => by
    rw [narrowEach]
    rcases s.findDetachedEntry handle .reserved with _ | ⟨slot, e⟩
    · rfl
    · dsimp only
      rw [narrowEach_shape masks (index + 1) handles, shape_setDetached]

theorem exportCheck_shape (s : HandleState) (τ : ℕ) : ∀ l : List (ℕ × ℕ), (exportCheck τ s l).2.shape = s.shape
  | [] => rfl
  | (detached, handle) :: rest => by
    rw [exportCheck]
    rcases findEntry s τ handle with status | i
    · exact shape_noting s status
    rcases s.findDetachedEntry detached .reserved with _ | ⟨slot, e⟩
    · rfl
    · dsimp only
      split_ifs
      · rfl
      · exact exportCheck_shape s τ rest

theorem exportEach_shape (τ : ℕ) : ∀ (l : List (ℕ × ℕ)) (s : HandleState),
    (exportEach τ l s).2.shape = s.shape
  | [], _ => rfl
  | (detached, handle) :: rest, s => by
    rw [exportEach]
    rcases findEntry s τ handle with status | i
    · rfl
    rcases s.findDetachedEntry detached .reserved with _ | ⟨slot, e⟩
    · rfl
    · dsimp only
      rw [exportEach_shape τ rest]
      simp [retireEntry]

variable (τ : ℕ) (F : KernelHandleImportRights)

theorem shape_unreserve (s : HandleState) (slot : ℕ) : (unreserve τ s slot).shape = s.shape := by
  simp [unreserve]

theorem shape_unreserveChecked (s : HandleState) (slot : ℕ) :
    (unreserveChecked τ s slot).2.shape = s.shape := by
  unfold unreserveChecked
  dsimp only
  have hrel := shape_releaseFreeSlot
    (s.setEntry τ slot { s.entry τ slot with reserved := .none }) τ slot
  generalize (s.setEntry τ slot { s.entry τ slot with reserved := .none }).releaseFreeSlot τ slot = r
    at hrel ⊢
  rcases r with ⟨_ | _, s₁⟩
  · exact hrel
  · exact (shape_slotRelease s₁).trans hrel

theorem shape_foldl {f : HandleState → ℕ → HandleState} (hf : ∀ s i, (f s i).shape = s.shape) :
    ∀ (l : List ℕ) (s : HandleState), (l.foldl f s).shape = s.shape
  | [], _ => rfl
  | i :: l, s => by
    rw [List.foldl_cons, shape_foldl hf l, hf]

theorem reserveEach_shape (τ count : ℕ) (grants : ℕ → SlotGrant) : ∀ (l : List ℕ)
    (made : List (ℕ × ℕ)) (s : HandleState),
    (reserveEach τ count grants l made s).2.2.shape = s.shape
  | [], _, _ => rfl
  | slot :: rest, made, s => by
    rw [reserveEach]
    split
    · rfl
    split
    · exact reserveEach_shape τ count grants rest made s
    split
    · rfl
    split
    · exact shape_foldl (shape_unreserve τ) _ s
    split
    · rw [shape_flag, shape_foldl fun s i => by rw [shape_flagUnless, shape_unreserveChecked]]
      simp
    · rw [reserveEach_shape τ count grants rest]
      simp

theorem importEach_shape (F : KernelHandleImportRights) (τ : ℕ) : ∀ (slots detached : List ℕ)
    (s : HandleState), PoolShape s → PoolShape (importEach F τ slots detached s).2
  | [], _, _, h => h
  | _ :: _, [], s, h => h.of_shape (shape_flag s)
  | slot :: slots, handle :: others, s, h => by
    rw [importEach]
    rcases s.findDetachedEntry handle .live with _ | ⟨d, source⟩
    · exact h.of_shape (shape_flag s)
    · refine importEach_shape F τ slots others _ (PoolShape.freed (h.of_shape ?_) d source)
      simp

theorem cancelEach_shape (τ : ℕ) : ∀ (slots : List ℕ) (s : HandleState),
    (cancelEach τ slots s).2.shape = s.shape
  | [], _ => rfl
  | slot :: slots, s => by
    rw [cancelEach]
    have hun := shape_unreserveChecked τ s slot
    generalize unreserveChecked τ s slot = r at hun ⊢
    rcases r with ⟨_ | _, s₁⟩
    · exact hun
    · exact (cancelEach_shape τ slots s₁).trans hun

theorem releaseRest_shape : ∀ (slots : List ℕ) (s : HandleState), PoolShape s →
    PoolShape (releaseRest slots s)
  | [], _, h => h
  | slot :: slots, s, h => by
    rw [releaseRest]
    rcases s.detachedEntryAt slot with _ | e
    · exact releaseRest_shape slots s h
    · exact (h.freed slot e).of_shape (by simp)

theorem perform_poolShape (h : PoolShape s) (c : HandleCall) : PoolShape (s.perform F c).2 := by
  by_cases hc : c.moves = false
  · exact h.of_shape (shape_perform s F hc)
  cases c with
  | transferPrepare τ handles required b grants =>
    show PoolShape (kernelHandleTransferPrepare F s τ handles required b grants).2
    unfold kernelHandleTransferPrepare
    have hv := shape_validateTransferSources (s.setBatch b emptyTransferBatch) F τ handles required
    generalize validateTransferSources F (s.setBatch b emptyTransferBatch) τ handles required = r
      at hv ⊢
    rcases r with ⟨status, s₁⟩
    have h₁ : PoolShape s₁ := h.of_shape hv
    cases status with
    | ok =>
      dsimp only
      have hp := prepareEach_shape τ grants handles [] s₁ h₁
      generalize prepareEach τ grants handles [] s₁ = r at hp ⊢
      rcases r with ⟨_ | _ | _, made, s₂⟩
      · dsimp only at hp ⊢
        split_ifs
        · exact hp.of_shape rfl
        · exact hp.of_shape rfl
      · dsimp only at hp ⊢
        have hfree := freeReservedEach_shape (made.map Prod.fst) s₂ hp
        generalize freeReservedEach (made.map Prod.fst) s₂ = r at hfree ⊢
        rcases r with ⟨_ | _, s₃⟩
        · exact hfree
        · exact hfree.of_shape rfl
      · exact hp
    | _ => exact h₁
  | transferNarrow b masks =>
    show PoolShape (kernelHandleTransferNarrow F s b masks).2
    unfold kernelHandleTransferNarrow
    dsimp only
    split_ifs
    · exact h
    · have hn := narrowCheck_shape s F masks 0 (s.batches b).detached
      generalize narrowCheck F masks s 0 (s.batches b).detached = r at hn ⊢
      rcases r with ⟨status, s₁⟩
      cases status with
      | ok => exact h.of_shape ((narrowEach_shape masks 0 _ s₁).trans hn)
      | _ => exact h.of_shape hn
  | transferCommitExport τ b =>
    show PoolShape (kernelHandleTransferCommitExport s τ b).2
    unfold kernelHandleTransferCommitExport
    dsimp only
    split
    · exact h
    have hn := exportCheck_shape s τ (s.batches b).entries
    generalize exportCheck τ s (s.batches b).entries = r at hn ⊢
    rcases r with ⟨status, s₁⟩
    cases status with
    | ok =>
      dsimp only at hn ⊢
      split
      · exact h.of_shape hn
      have he := exportEach_shape τ (s.batches b).entries s₁
      generalize exportEach τ (s.batches b).entries s₁ = r at he ⊢
      rcases r with ⟨status, s₂⟩
      cases status with
      | ok => exact h.of_shape (he.trans hn)
      | _ => exact h.of_shape (he.trans hn)
    | _ => exact h.of_shape hn
  | transferRollback b =>
    show PoolShape (kernelHandleTransferRollback s b).2
    unfold kernelHandleTransferRollback
    dsimp only
    split_ifs
    · exact h
    · exact h
    · exact h.of_shape rfl
    · have hfree := freeReservedEach_shape (s.batches b).detached s h
      generalize freeReservedEach (s.batches b).detached s = r at hfree ⊢
      rcases r with ⟨_ | _, s₁⟩
      · exact hfree
      · exact hfree.of_shape rfl
  | importReserve τ detached r grants =>
    show PoolShape (kernelHandleImportReserve s τ detached r grants).2
    unfold kernelHandleImportReserve
    dsimp only
    split
    · exact h
    generalize liveOnce (s.setReservation r emptyImportReservation) [] detached = status
    cases status with
    | ok =>
      dsimp only
      split
      · exact h.of_shape rfl
      have hn := reserveEach_shape τ detached.length grants (List.range kernelHandleMaxEntries) []
        (s.setReservation r emptyImportReservation)
      generalize reserveEach τ detached.length grants (List.range kernelHandleMaxEntries) []
        (s.setReservation r emptyImportReservation) = x at hn ⊢
      rcases x with ⟨status, made, s₁⟩
      cases status with
      | ok =>
        dsimp only at hn ⊢
        split_ifs
        · exact h.of_shape hn
        · exact h.of_shape hn
      | _ => exact h.of_shape hn
    | _ => exact h.of_shape rfl
  | importCommit τ r detached =>
    show PoolShape (kernelHandleImportCommit F s τ r detached).2
    unfold kernelHandleImportCommit
    dsimp only
    split_ifs
    · exact h
    · exact h
    · exact h.of_shape rfl
    · have hi := importEach_shape F τ (s.reservations r).slots detached s h
      generalize importEach F τ (s.reservations r).slots detached s = x at hi ⊢
      rcases x with ⟨status, s₁⟩
      cases status with
      | ok => exact hi.of_shape rfl
      | _ => exact hi
  | importCancel τ r =>
    show PoolShape (kernelHandleImportCancel s τ r).2
    unfold kernelHandleImportCancel
    dsimp only
    split_ifs
    · exact h
    · exact h
    · have hn := cancelEach_shape τ (s.reservations r).slots s
      generalize cancelEach τ (s.reservations r).slots s = x at hn ⊢
      rcases x with ⟨status, s₁⟩
      cases status with
      | ok => exact h.of_shape hn
      | _ => exact h.of_shape hn
  | detachedRelease detached =>
    show PoolShape (kernelHandleDetachedRelease s detached).2
    unfold kernelHandleDetachedRelease
    dsimp only
    split
    · exact h
    generalize liveOnce s [] detached = status
    cases status with
    | ok =>
      dsimp only
      split
      · exact h.of_shape rfl
      · exact releaseRest_shape _ _ (h.of_shape rfl)
    | _ => exact h
  | _ => exact absurd rfl hc

theorem resume_poolShape (h : PoolShape s) : PoolShape s.resume := by
  unfold resume
  rcases hf : s.frames with _ | ⟨frame, frames⟩
  · exact h
  have h₁ : PoolShape { s with frames := frames } := h.of_shape rfl
  cases frame with
  | done => exact h₁
  | closeAll τ rest => exact h₁.of_shape (shape_closeAllRest τ rest _)
  | closeDestination τ => exact h₁.of_shape (shape_closeAll _ τ)
  | closeType τ type rest => exact h₁.of_shape (shape_closeTypeRest τ type rest _)
  | detachedRelease rest => exact releaseRest_shape rest _ h₁

theorem poolShape_init : PoolShape kernelHandleTransferPoolInit :=
  ⟨⟨0, Nat.zero_le _, fun leaf _ => by simp [kernelHandleTransferPoolInit], rfl, rfl⟩, by decide⟩

theorem run_poolShape {evs : List HandleEvent} (h : HandleRun F evs) :
    PoolShape (handlesAfter F evs) := by
  refine HandleState.run_induction F (fun s ev hs _ => ?_) poolShape_init h
  cases ev with
  | call c => exact perform_poolShape F hs c
  | returned => exact resume_poolShape hs

end moves

end Astra
