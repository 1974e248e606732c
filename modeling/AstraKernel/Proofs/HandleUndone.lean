import AstraKernel.Proofs.HandleShape

/-!
# Moves that are undone

An export that fails or is rolled back, and an import that fails or is cancelled, leave the tables
and the entries in use as they were. The counters of the allocator's ledger are taken not to
overflow.
-/

namespace Astra

open Function HandleState

variable (F : KernelHandleImportRights)

/-- Every export from `τ` is undone when it fails, and when it is rolled back, narrowed before or
not; a narrowing that fails changes nothing. -/
def ExportsUndone (s : HandleState) (τ : ℕ) : Prop :=
  ∀ (handles : List ℕ) (required : HandleRights) (b : ℕ) (grants : ℕ → DetachedGrant),
    (∀ k, (grants k).commit = true) →
    let prepared := kernelHandleTransferPrepare F s τ handles required b grants
    (prepared.1 ≠ .ok → Undone s prepared.2) ∧
    (prepared.1 = .ok →
      ((kernelHandleTransferRollback prepared.2 b).1 = .ok ∧
        Undone s (kernelHandleTransferRollback prepared.2 b).2) ∧
      ∀ masks,
        let narrowed := kernelHandleTransferNarrow F prepared.2 b masks
        (narrowed.1 ≠ .ok → narrowed.2 = prepared.2) ∧
        (kernelHandleTransferRollback narrowed.2 b).1 = .ok ∧
          Undone s (kernelHandleTransferRollback narrowed.2 b).2)

/-- Every import into `τ` is undone when its reserve fails, and when it is cancelled. -/
def ImportsUndone (s : HandleState) (τ : ℕ) : Prop :=
  ∀ (detached : List ℕ) (r : ℕ) (grants : ℕ → SlotGrant), (∀ k, (grants k).commit = true) →
    let reserved := kernelHandleImportReserve s τ detached r grants
    (reserved.1 ≠ .ok → Undone s reserved.2) ∧
    (reserved.1 = .ok → (kernelHandleImportCancel reserved.2 τ r).1 = .ok ∧
      Undone s (kernelHandleImportCancel reserved.2 τ r).2)

section undone

variable {F} {s q : HandleState} {τ : ℕ}

theorem rollback_undone (hs : PoolShape s) (hp : kernelHandleTransferPoolValid s)
    {made : List (ℕ × ℕ)} {b : ℕ} {stats : KernelHandleTransferStats} (hne : made ≠ [])
    (hl : stats.liveDetached = s.transferStats.liveDetached)
    (hr : stats.reservedDetached = s.transferStats.reservedDetached + made.length)
    (hm : stats.maxLiveDetached = s.transferStats.maxLiveDetached)
    (h : ExportHeld ((s.setBatch b { entries := made, state := .prepared }).setStats stats) q
      (made.map Prod.fst) made.length) :
    (kernelHandleTransferRollback q b).1 = .ok ∧ Undone s (kernelHandleTransferRollback q b).2 := by
  have hb : q.batches b = { entries := made, state := .prepared } := by
    rw [h.outside.batches]
    exact update_self b _ s.batches
  have hstats : q.transferStats = stats := h.outside.stats
  obtain ⟨s₁, h₁, hroll⟩ := rollback_held h hb hne (by rw [hstats, hr]; exact Nat.le_add_left _ _)
  have hstats₁ : s₁.transferStats = stats := h₁.outside.stats
  rw [hroll]
  refine ⟨rfl, ((h₁.setStats _).setBatch b emptyTransferBatch).undone ⟨hs.leaves, hs.next⟩ ?_ rfl rfl
    rfl⟩
  refine transferPoolValid_setStats hp ?_ ?_ ?_
  · show s₁.transferStats.liveDetached = _
    rw [hstats₁, hl]
  · show s₁.transferStats.reservedDetached - made.length = _
    rw [hstats₁, hr, Nat.add_sub_cancel]
  · show s₁.transferStats.maxLiveDetached = _
    rw [hstats₁, hm]

theorem prepared_undone (hs : PoolShape s) (hp : kernelHandleTransferPoolValid s)
    {made : List (ℕ × ℕ)} {s₁ : HandleState} {b : ℕ} (hne : made ≠ [])
    (h : ExportHeld (s.setBatch b emptyTransferBatch) s₁ (made.map Prod.fst) made.length)
    (hq : q = (s₁.setBatch b { entries := made, state := .prepared }).setStats { s₁.transferStats with
      reservedDetached := s₁.transferStats.reservedDetached + made.length
      preparedExports := s₁.transferStats.preparedExports + 1 }) :
    ((kernelHandleTransferRollback q b).1 = .ok ∧ Undone s (kernelHandleTransferRollback q b).2) ∧
    ∀ masks, ((kernelHandleTransferNarrow F q b masks).1 ≠ .ok →
        (kernelHandleTransferNarrow F q b masks).2 = q) ∧
      (kernelHandleTransferRollback (kernelHandleTransferNarrow F q b masks).2 b).1 = .ok ∧
        Undone s (kernelHandleTransferRollback (kernelHandleTransferNarrow F q b masks).2 b).2 := by
  have hstats : s₁.transferStats = s.transferStats := h.outside.stats
  have hbatch : (s.setBatch b emptyTransferBatch).setBatch b { entries := made, state := .prepared } =
      s.setBatch b { entries := made, state := .prepared } := by
    simp [setBatch]
  obtain ⟨stats, hst⟩ : ∃ stats : KernelHandleTransferStats, stats = { s₁.transferStats with
    reservedDetached := s₁.transferStats.reservedDetached + made.length
    preparedExports := s₁.transferStats.preparedExports + 1 } := ⟨_, rfl⟩
  have hl : stats.liveDetached = s.transferStats.liveDetached := by rw [hst, hstats]
  have hr : stats.reservedDetached = s.transferStats.reservedDetached + made.length := by
    rw [hst, hstats]
  have hm : stats.maxLiveDetached = s.transferStats.maxLiveDetached := by rw [hst, hstats]
  have hheld := (h.setBatch b { entries := made, state := .prepared }).setStats stats
  rw [hbatch] at hheld
  rw [hq, ← hst]
  refine ⟨rollback_undone hs hp hne hl hr hm hheld, fun masks => ?_⟩
  obtain ⟨hnarrow, hsame⟩ := narrow_held F hheld (update_self b _ s₁.batches) masks
  exact ⟨hsame, rollback_undone hs hp hne hl hr hm hnarrow⟩

theorem exports_undone (hs : PoolShape s) (hp : kernelHandleTransferPoolValid s)
    (ht : kernelHandleTableValid s τ = true) : ExportsUndone F s τ := by
  intro handles required b grants hc prepared
  obtain ⟨-, k, hk⟩ | ⟨hfail, hundone⟩ | ⟨made, s₁, hne, h, hres⟩ :=
    prepare_held F hs hp ht handles required b grants
  · rw [hc k] at hk
    cases hk
  · exact ⟨fun _ => hundone, fun hok => absurd hok hfail⟩
  · have hprepared : prepared = _ := hres
    refine ⟨fun hfail => absurd (by rw [hprepared]) hfail, fun _ => ?_⟩
    exact prepared_undone hs hp hne h (by rw [hprepared])

theorem imports_undone (hp : kernelHandleTransferPoolValid s)
    (ht : kernelHandleTableValid s τ = true)
    (hg : ∀ i, normalGeneration (s.entry τ i).generation kernelHandleGenerationMask =
      (s.entry τ i).generation) : ImportsUndone s τ := by
  intro detached r grants hc reserved
  rcases reserve_held hp ht hg detached r hc with ⟨hfail, hundone⟩ | ⟨made, s₁, h, hres⟩
  · exact ⟨fun _ => hundone, fun hok => absurd hok hfail⟩
  have hreserved : reserved = _ := hres
  rw [hreserved]
  refine ⟨fun hfail => absurd rfl hfail, fun _ => ?_⟩
  obtain ⟨s₂, h₂, hcancel⟩ := cancel_held (h.setReservation r { entries := made, active := true })
    (update_self r _ s₁.reservations)
  rw [hcancel]
  refine ⟨rfl, ?_⟩
  obtain ⟨h1, h2, h3, h4, h5, h6⟩ := h₂.undone hp
  exact ⟨h1, h2, h3, h4, h5, transferPoolValid_setStats h6 rfl rfl rfl⟩

theorem transferPoolValid_init : kernelHandleTransferPoolValid kernelHandleTransferPoolInit := by
  have hleaves : allocatedLeaves kernelHandleTransferPoolInit = 0 := by
    unfold allocatedLeaves
    rw [takeWhile_range_lt (Nat.zero_le _) fun leaf _ => by simp [kernelHandleTransferPoolInit]]
    rfl
  have hin : ∀ state, detachedIn kernelHandleTransferPoolInit state = ∅ := fun _ => rfl
  unfold kernelHandleTransferPoolValid
  rw [hleaves, hin, hin]
  refine ⟨rfl, fun _ _ _ => rfl, rfl, fun d hd => absurd hd (Nat.not_lt_zero d), ?_⟩
  simp [kernelHandleTransferPoolInit]

/-- A handle that may be sent is installed. -/
def sendableInstalled : List HandleEvent :=
  [.call (.install 0 .sync handleRightTransfer 1 (some 7) 0 ⟨true, true, true⟩)]

end undone

end Astra
