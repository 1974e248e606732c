import AstraKernel.Proofs.HandleMoves

/-!
# Exports that are undone

An export claims entries of the pool one by one, with new leaves where it needs them. Its entries
are reserved until it ends, and no entry in use before is touched; so an export that is given up
leaves the same entries in use.
-/

namespace Astra

open Function HandleState List

/-- The leaves that are backed come before those that are not, and the search for a free entry starts
in one of them or right behind them. -/
structure PoolShape (s : HandleState) : Prop where
  leaves : ∃ leaves ≤ detachedLeafCount, (∀ leaf < detachedLeafCount,
    (s.detachedDirectory leaf).isSome = true ↔ leaf < leaves) ∧
    s.detachedBackedLimit = min (leaves * detachedLeafEntries) kernelHandleDetachedMax ∧
    s.metadataUnits = leaves * detachedLeafFrames
  next : s.detachedNextSlot ≤ s.detachedBackedLimit ∧ s.detachedNextSlot < kernelHandleDetachedMax

structure OutsidePool (s s' : HandleState) : Prop where
  tables : s'.tables = s.tables
  slotUnits : s'.slotUnits = s.slotUnits
  stats : s'.transferStats = s.transferStats
  batches : s'.batches = s.batches

structure LeafAdded (s s' : HandleState) : Prop where
  outside : OutsidePool s s'
  healthy : s'.transferPoolCorrupt = s.transferPoolCorrupt
  units : s'.detachedUnits = s.detachedUnits
  kept : ∀ d e, s.detachedEntryAt d = some e → s'.detachedEntryAt d = some e
  fresh : ∀ d e, s'.detachedEntryAt d = some e → s.detachedEntryAt d = some e ∨
    e.state = .free ∧ detachedEntryValid d e

section shape

variable {s s' s₁ : HandleState} {d : ℕ} {e : KernelDetachedEntry}

section

variable (h : PoolShape s)
include h

theorem PoolShape.same
    (hd : ∀ leaf, (s'.detachedDirectory leaf).isSome = (s.detachedDirectory leaf).isSome)
    (hl : s'.detachedBackedLimit = s.detachedBackedLimit)
    (hn : s'.detachedNextSlot ≤ s.detachedNextSlot) (hm : s'.metadataUnits = s.metadataUnits) :
    PoolShape s' := by
  obtain ⟨leaves, hle, hsome, hlimit, hmeta⟩ := h.leaves
  refine ⟨⟨leaves, hle, fun leaf hleaf => ?_, hl.trans hlimit, hm.trans hmeta⟩, ?_, ?_⟩
  · rw [hd, hsome leaf hleaf]
  · rw [hl]
    exact hn.trans h.next.1
  · exact lt_of_le_of_lt hn h.next.2

theorem PoolShape.limit_le : s.detachedBackedLimit ≤ kernelHandleDetachedMax := by
  obtain ⟨leaves, -, -, hlimit, -⟩ := h.leaves
  rw [hlimit]
  exact Nat.min_le_right _ _

theorem PoolShape.backed (d : ℕ) :
    (s.detachedEntryAt d).isSome = true ↔ d < s.detachedBackedLimit := by
  obtain ⟨leaves, -, hsome, hlimit, -⟩ := h.leaves
  unfold detachedEntryAt
  by_cases hmax : d < kernelHandleDetachedMax
  · have hcount : d / detachedLeafEntries < detachedLeafCount := by
      unfold detachedLeafCount kernelHandleDetachedMax detachedLeafEntries at *
      omega
    rw [if_pos hmax, Option.isSome_map, hsome _ hcount, hlimit]
    unfold kernelHandleDetachedMax detachedLeafEntries at *
    omega
  · rw [if_neg hmax, hlimit]
    simp only [Option.isSome_none, Bool.false_eq_true, false_iff]
    omega

theorem PoolShape.lt_limit (hd : s.detachedEntryAt d = some e) :
    d < s.detachedBackedLimit := (h.backed d).1 (by simp [hd])

end

theorem isSome_setDetached (s : HandleState) (d : ℕ) (e : KernelDetachedEntry) (leaf : ℕ) :
    ((s.setDetached d e).detachedDirectory leaf).isSome = (s.detachedDirectory leaf).isSome := by
  by_cases h : leaf = d / detachedLeafEntries
  · subst h
    simp [setDetached]
  · simp [setDetached, update_of_ne h]

section

variable (h : PoolShape s)
include h

theorem PoolShape.setDetached (d : ℕ) (e : KernelDetachedEntry) : PoolShape (s.setDetached d e) :=
  h.same (isSome_setDetached s d e) rfl le_rfl rfl

theorem PoolShape.unitReleased : PoolShape (flagUnless s.detachedUnitRelease) := by
  unfold detachedUnitRelease
  split_ifs
  · exact ⟨h.leaves, h.next⟩
  · exact ⟨h.leaves, h.next⟩

theorem PoolShape.freed (d : ℕ) (e : KernelDetachedEntry) :
    PoolShape (s.freeDetachedEntry d e) := by
  refine PoolShape.unitReleased (h.same (isSome_setDetached s d _) rfl ?_ rfl)
  show (if e.slot < s.detachedNextSlot then e.slot else s.detachedNextSlot) ≤ s.detachedNextSlot
  split_ifs
  · omega
  · exact le_rfl

theorem PoolShape.moved (hd : d < s.detachedBackedLimit) (units : ℕ) :
    PoolShape { s with detachedNextSlot := nextDetachedSlot d, detachedUnits := units } := by
  have hle := h.limit_le
  refine ⟨h.leaves, ?_⟩
  dsimp only
  unfold nextDetachedSlot
  split_ifs with hmax
  · exact ⟨Nat.zero_le _, by unfold kernelHandleDetachedMax; omega⟩
  · omega

end

theorem freshDetachedLeaf_valid {leaf : ℕ} (hl : d / detachedLeafEntries = leaf)
    (hd : d < kernelHandleDetachedMax) :
    (freshDetachedLeaf leaf (d % detachedLeafEntries)).state = .free ∧
      detachedEntryValid d (freshDetachedLeaf leaf (d % detachedLeafEntries)) := by
  have hslot : leaf * detachedLeafEntries + d % detachedLeafEntries = d := by
    rw [← hl]
    exact Nat.div_add_mod' d detachedLeafEntries
  unfold freshDetachedLeaf
  rw [hslot, if_pos hd]
  simp [detachedEntryValid, clearDetachedEntry, kernelDetachedGenerationMask]

theorem LeafAdded.refl (s : HandleState) : LeafAdded s s :=
  ⟨⟨rfl, rfl, rfl, rfl⟩, rfl, rfl, fun _ _ h => h, fun _ _ h => .inl h⟩

theorem LeafAdded.trans (h : LeafAdded s s₁) (h' : LeafAdded s₁ s') : LeafAdded s s' where
  outside := ⟨h'.outside.1.trans h.outside.1, h'.outside.2.trans h.outside.2,
    h'.outside.3.trans h.outside.3, h'.outside.4.trans h.outside.4⟩
  healthy := h'.healthy.trans h.healthy
  units := h'.units.trans h.units
  kept d e hd := h'.kept d e (h.kept d e hd)
  fresh d e hd := (h'.fresh d e hd).elim (h.fresh d e) .inr

theorem ensureDetachedLeaf_shape (h : PoolShape s) (granted : Bool)
    (hd : d ≤ s.detachedBackedLimit) (hmax : d < kernelHandleDetachedMax) :
    PoolShape (s.ensureDetachedLeaf granted d).2 ∧ LeafAdded s (s.ensureDetachedLeaf granted d).2 ∧
      ((s.ensureDetachedLeaf granted d).1 = true →
        d < (s.ensureDetachedLeaf granted d).2.detachedBackedLimit) := by
  obtain ⟨leaves, hle, hsome, hlimit, hmeta⟩ := h.leaves
  have hcount : d / detachedLeafEntries < detachedLeafCount := by
    unfold detachedLeafCount kernelHandleDetachedMax detachedLeafEntries at *
    omega
  unfold ensureDetachedLeaf
  dsimp only
  split
  · rename_i hb
    refine ⟨h, .refl s, fun _ => (h.backed d).1 ?_⟩
    simpa [detachedEntryAt, hmax] using hb
  rename_i hb
  split
  · exact ⟨h, .refl s, fun h1 => by simp at h1⟩
  -- the leaf is the first that is not backed
  have hleaf : d / detachedLeafEntries = leaves := by
    have hge : ¬ d / detachedLeafEntries < leaves := fun h1 => hb ((hsome _ hcount).2 h1)
    rw [hlimit] at hd
    unfold kernelHandleDetachedMax detachedLeafEntries at *
    omega
  rw [hleaf] at hb ⊢
  obtain ⟨s₁, hs₁⟩ : ∃ s₁ : HandleState, s₁ = { s with
      detachedDirectory :=
        update s.detachedDirectory leaves (some (freshDetachedLeaf leaves))
      metadataUnits := s.metadataUnits + detachedLeafFrames
      detachedBackedLimit := max s.detachedBackedLimit
        (min ((leaves + 1) * detachedLeafEntries) kernelHandleDetachedMax) } := ⟨_, rfl⟩
  rw [← hs₁]
  have hlimit' : s₁.detachedBackedLimit =
      min ((leaves + 1) * detachedLeafEntries) kernelHandleDetachedMax := by
    rw [hs₁, hlimit]
    unfold kernelHandleDetachedMax detachedLeafEntries at *
    dsimp only
    omega
  have hold : ∀ i, i / detachedLeafEntries ≠ leaves → s₁.detachedEntryAt i = s.detachedEntryAt i := by
    intro i hi
    rw [hs₁]
    simp [detachedEntryAt, update_of_ne hi]
  have hshape : PoolShape s₁ := by
    refine ⟨⟨leaves + 1, by omega, fun leaf hleaf' => ?_, hlimit', ?_⟩, ?_⟩
    · rw [hs₁]
      dsimp only
      rcases eq_or_ne leaf leaves with rfl | hne
      · simp
      · rw [update_of_ne hne, hsome leaf hleaf']
        omega
    · rw [hs₁]
      dsimp only
      rw [hmeta, Nat.add_mul, Nat.one_mul]
    · have hn := h.next
      rw [hlimit']
      rw [hlimit] at hn
      rw [hs₁]
      unfold kernelHandleDetachedMax detachedLeafEntries at *
      dsimp only
      omega
  refine ⟨hshape, ?_, fun _ => ?_⟩
  · rw [hs₁]
    refine ⟨⟨rfl, rfl, rfl, rfl⟩, rfl, rfl, ?_, ?_⟩ <;> rw [← hs₁]
    · intro i x hx
      by_cases hl : i / detachedLeafEntries = leaves
      · -- the leaf was not there
        unfold detachedEntryAt at hx
        rw [hl, Option.not_isSome_iff_eq_none.1 hb] at hx
        simp at hx
      · rw [hold i hl, hx]
    · intro i x hx
      by_cases hl : i / detachedLeafEntries = leaves
      · have hi : i < kernelHandleDetachedMax := lt_of_lt_of_le (hshape.lt_limit hx) hshape.limit_le
        have hnew : s₁.detachedEntryAt i =
            some (freshDetachedLeaf leaves (i % detachedLeafEntries)) := by
          rw [hs₁]
          simp [detachedEntryAt, hi, hl]
        rw [hnew] at hx
        exact .inr (Option.some.inj hx ▸ freshDetachedLeaf_valid hl hi)
      · exact .inl (hold i hl ▸ hx)
  · rw [hlimit']
    unfold kernelHandleDetachedMax detachedLeafEntries at *
    omega

theorem claimScan_shape (grant : DetachedGrant) : ∀ (candidates candidate : ℕ) (s : HandleState),
    PoolShape s → candidate ≤ s.detachedBackedLimit → candidate < kernelHandleDetachedMax →
    ∃ s₁, PoolShape s₁ ∧ LeafAdded s s₁ ∧
      (claimScan grant candidates candidate s = (.unavailable, 0, s₁) ∨
        ∃ d e, s₁.detachedEntryAt d = some e ∧ e.state = .free ∧
          claimScan grant candidates candidate s =
            if grant.commit = false then
              (.corrupt, 0, { s₁ with detachedNextSlot := nextDetachedSlot d })
            else (.ok, d, { s₁ with
              detachedNextSlot := nextDetachedSlot d, detachedUnits := s₁.detachedUnits + 1 }))
  | 0, _, s, h, _, _ => ⟨s, h, .refl s, .inl rfl⟩
  | candidates + 1, candidate, s, h, hle, hmax => by
    obtain ⟨hs₁, hl, hlt⟩ := ensureDetachedLeaf_shape h (grant.leaf candidate) hle hmax
    rcases he : s.ensureDetachedLeaf (grant.leaf candidate) candidate with ⟨_ | _, s₁⟩ <;>
      rw [he] at hs₁ hl hlt
    · refine ⟨s₁, hs₁, hl, .inl ?_⟩
      rw [claimScan, he]
    · obtain ⟨e, hat⟩ := Option.isSome_iff_exists.1 ((hs₁.backed candidate).2 (hlt rfl))
      by_cases hf : e.state = .free
      · refine ⟨s₁, hs₁, hl, .inr ⟨candidate, e, hat, hf, ?_⟩⟩
        rw [claimScan, he]
        simp [hat, hf]
      · have hnext := (hs₁.moved (hlt rfl) 0).next
        obtain ⟨s₂, hs₂, hl₂, h2⟩ := claimScan_shape grant candidates (nextDetachedSlot candidate) s₁
          hs₁ hnext.1 hnext.2
        refine ⟨s₂, hs₂, hl.trans hl₂, ?_⟩
        rw [claimScan, he]
        simpa [hat, hf] using h2

theorem claimDetachedEntry_shape (h : PoolShape s) (grant : DetachedGrant) :
    ∃ s₁, PoolShape s₁ ∧ LeafAdded s s₁ ∧
      (s.claimDetachedEntry grant = (.unavailable, 0, s₁) ∨
        ∃ d e, s₁.detachedEntryAt d = some e ∧ e.state = .free ∧
          s.claimDetachedEntry grant =
            if grant.commit = false then
              (.corrupt, 0, { s₁ with detachedNextSlot := nextDetachedSlot d })
            else (.ok, d, { s₁ with
              detachedNextSlot := nextDetachedSlot d, detachedUnits := s₁.detachedUnits + 1 })) := by
  unfold claimDetachedEntry
  split
  · exact ⟨s, h, .refl s, .inl rfl⟩
  · exact claimScan_shape grant _ _ s h h.next.1 h.next.2

end shape

/-- An export that has reserved entries for `handles`, seen from the state it started in: the entries
that were in use are as they were, and `units` units were claimed for it. -/
structure ExportHeld (s₀ s : HandleState) (handles : List ℕ) (units : ℕ) : Prop where
  shape : PoolShape s
  healthy : s.transferPoolCorrupt = false
  outside : OutsidePool s₀ s
  units : s.detachedUnits = s₀.detachedUnits + units
  entries : ∀ d e, s.detachedEntryAt d = some e → e.slot = d ∧ e.generation ≠ 0 ∧
    e.generation ≤ kernelDetachedGenerationMask ∧
    (d ∉ handles.map detachedSlot → detachedEntryValid d e)
  inUse : ∀ d ∉ handles.map detachedSlot, ∀ e, e.state ≠ .free →
    (s.detachedEntryAt d = some e ↔ s₀.detachedEntryAt d = some e)
  free : ∀ d ∈ handles.map detachedSlot, ∀ e, s₀.detachedEntryAt d = some e → e.state = .free
  found : ∀ handle ∈ handles, ∃ e,
    s.findDetachedEntry handle .reserved = some (detachedSlot handle, e)
  nodup : (handles.map detachedSlot).Nodup

section held

variable {s₀ s s' s₁ : HandleState} {handles : List ℕ} {k d handle : ℕ} {e : KernelDetachedEntry}

theorem findDetachedEntry_kept {state : KernelDetachedState} {x : ℕ × KernelDetachedEntry}
    (hf : s.findDetachedEntry handle state = some x)
    (h : s'.detachedEntryAt (detachedSlot handle) = s.detachedEntryAt (detachedSlot handle)) :
    s'.findDetachedEntry handle state = some x := by
  unfold detachedSlot at h
  unfold findDetachedEntry at hf ⊢
  dsimp only at hf ⊢
  rwa [h]

theorem detachedSlot_make {generation : ℕ} (hd : d < kernelHandleDetachedMax) :
    detachedSlot (makeDetachedHandle d generation) = d := by
  unfold detachedSlot makeDetachedHandle kernelHandleDetachedMax at *
  omega

theorem findDetachedEntry_make (hd : s.detachedEntryAt d = some e)
    (hmax : d < kernelHandleDetachedMax) (hg : e.generation ≠ 0) :
    s.findDetachedEntry (makeDetachedHandle d e.generation) e.state = some (d, e) := by
  have hmod : makeDetachedHandle d e.generation % 65536 = d + 1 := by
    unfold makeDetachedHandle kernelHandleDetachedMax at *
    omega
  have hdiv : makeDetachedHandle d e.generation / 65536 = e.generation := by
    unfold makeDetachedHandle kernelHandleDetachedMax at *
    omega
  unfold findDetachedEntry
  rw [hmod, hdiv, if_neg (by omega), Nat.add_sub_cancel, hd]
  simp

theorem ExportHeld.start (h : PoolShape s) (hc : s.transferPoolCorrupt = false)
    (hv : ∀ d e, s.detachedEntryAt d = some e → detachedEntryValid d e) : ExportHeld s s [] 0 where
  shape := h
  healthy := hc
  outside := ⟨rfl, rfl, rfl, rfl⟩
  units := rfl
  entries d e hd := ⟨(hv d e hd).1, (hv d e hd).2.1, (hv d e hd).2.2.1, fun _ => hv d e hd⟩
  inUse _ _ _ _ := Iff.rfl
  free _ hd := absurd hd not_mem_nil
  found _ hm := absurd hm not_mem_nil
  nodup := nodup_nil

section

variable (h : ExportHeld s₀ s handles k)
include h

theorem ExportHeld.setBatch (b : ℕ) (batch : KernelHandleTransferBatch) :
    ExportHeld (s₀.setBatch b batch) (s.setBatch b batch) handles k := by
  refine ⟨⟨h.shape.leaves, h.shape.next⟩, h.healthy, ⟨h.outside.1, h.outside.2, h.outside.3, ?_⟩,
    h.units, h.entries, h.inUse, h.free, h.found, h.nodup⟩
  show update s.batches b batch = update s₀.batches b batch
  rw [h.outside.batches]

theorem ExportHeld.setStats (stats : KernelHandleTransferStats) :
    ExportHeld (s₀.setStats stats) (s.setStats stats) handles k :=
  ⟨⟨h.shape.leaves, h.shape.next⟩, h.healthy, ⟨h.outside.1, h.outside.2, rfl, h.outside.4⟩, h.units,
    h.entries, h.inUse, h.free, h.found, h.nodup⟩

theorem ExportHeld.reserved (hd : d ∈ handles.map detachedSlot) :
    ∃ e, s.detachedEntryAt d = some e ∧ e.state = .reserved := by
  obtain ⟨handle, hm, rfl⟩ := mem_map.1 hd
  obtain ⟨e, hf⟩ := h.found handle hm
  exact ⟨e, (findDetachedEntry_some hf).1, (findDetachedEntry_some hf).2.1⟩

theorem ExportHeld.not_mem (hd : s.detachedEntryAt d = some e)
    (he : e.state = .free) : d ∉ handles.map detachedSlot := by
  intro hm
  obtain ⟨e', hd', he'⟩ := h.reserved hm
  rw [hd] at hd'
  cases hd'
  rw [he] at he'
  simp at he'

theorem ExportHeld.leafAdded (hs₁ : PoolShape s₁)
    (hl : LeafAdded s s₁) : ExportHeld s₀ s₁ handles k where
  shape := hs₁
  healthy := hl.healthy.trans h.healthy
  outside := ⟨hl.outside.1.trans h.outside.1, hl.outside.2.trans h.outside.2,
    hl.outside.3.trans h.outside.3, hl.outside.4.trans h.outside.4⟩
  units := hl.units.trans h.units
  entries d e hd := by
    rcases hl.fresh d e hd with hd | ⟨-, hv⟩
    · exact h.entries d e hd
    · exact ⟨hv.1, hv.2.1, hv.2.2.1, fun _ => hv⟩
  inUse d hd e he := by
    refine Iff.trans ⟨fun h1 => ?_, hl.kept d e⟩ (h.inUse d hd e he)
    exact (hl.fresh d e h1).resolve_right fun h2 => he h2.1
  free := h.free
  found handle hm := by
    obtain ⟨e, hf⟩ := h.found handle hm
    have hd := (findDetachedEntry_some hf).1
    exact ⟨e, findDetachedEntry_kept hf ((hl.kept _ e hd).trans hd.symm)⟩
  nodup := h.nodup

theorem ExportHeld.claimed (hd : s.detachedEntryAt d = some e) : ExportHeld s₀ { s with
      detachedNextSlot := nextDetachedSlot d, detachedUnits := s.detachedUnits + 1 }
      handles (k + 1) where
  shape := h.shape.moved (h.shape.lt_limit hd) _
  healthy := h.healthy
  outside := ⟨h.outside.1, h.outside.2, h.outside.3, h.outside.4⟩
  units := by
    rw [h.units, Nat.add_assoc]
  entries := h.entries
  inUse := h.inUse
  free := h.free
  found := h.found
  nodup := h.nodup

theorem ExportHeld.filled (hd : s.detachedEntryAt d = some e)
    (hf : e.state = .free) (e' : KernelDetachedEntry) (hslot : e'.slot = e.slot)
    (hgen : e'.generation = e.generation) (hst : e'.state = .reserved) :
    ExportHeld s₀ (s.setDetached d e') (handles ++ [makeDetachedHandle d e.generation]) k := by
  have hmax : d < kernelHandleDetachedMax := lt_of_lt_of_le (h.shape.lt_limit hd) h.shape.limit_le
  have hnot := h.not_mem hd hf
  have hnew : (s.setDetached d e').detachedEntryAt d = some e' := by
    rw [detachedEntryAt_setDetached s hd, if_pos rfl]
  have hold : ∀ i, i ≠ d → (s.setDetached d e').detachedEntryAt i = s.detachedEntryAt i := by
    intro i hi
    rw [detachedEntryAt_setDetached s hd, if_neg hi]
  have hmap : (handles ++ [makeDetachedHandle d e.generation]).map detachedSlot =
      handles.map detachedSlot ++ [d] := by
    rw [map_append, map_singleton, detachedSlot_make hmax]
  obtain ⟨hes, heg, hem, -⟩ := h.entries d e hd
  refine ⟨h.shape.setDetached d e', h.healthy, ⟨h.outside.1, h.outside.2, h.outside.3, h.outside.4⟩,
    h.units, fun i x hx => ?_, fun i hi x hx => ?_, fun i hi x hx => ?_, fun handle hm => ?_, ?_⟩
  · rcases eq_or_ne i d with rfl | hne
    · rw [hnew] at hx
      cases hx
      exact ⟨hslot.trans hes, hgen ▸ heg, hgen ▸ hem, fun h1 => absurd (by simp [hmap]) h1⟩
    · rw [hold i hne] at hx
      obtain ⟨h1, h2, h3, h4⟩ := h.entries i x hx
      exact ⟨h1, h2, h3, fun h5 => h4 fun h6 => h5 (by rw [hmap]; exact mem_append_left _ h6)⟩
  · rw [hmap, mem_append, mem_singleton, not_or] at hi
    rw [hold i hi.2]
    exact h.inUse i hi.1 x hx
  · rw [hmap, mem_append, mem_singleton] at hi
    rcases hi with hi | rfl
    · exact h.free i hi x hx
    · by_contra hne
      have hx' := (h.inUse i hnot x hne).2 hx
      rw [hd] at hx'
      exact hne (Option.some.inj hx' ▸ hf)
  · rcases mem_append.1 hm with hm | hm
    · obtain ⟨x, hx⟩ := h.found handle hm
      have hne : detachedSlot handle ≠ d := fun h1 => hnot (h1 ▸ mem_map_of_mem hm)
      exact ⟨x, findDetachedEntry_kept hx (hold _ hne)⟩
    · obtain rfl := mem_singleton.1 hm
      refine ⟨e', ?_⟩
      have hfind := findDetachedEntry_make hnew hmax (hgen ▸ heg)
      rw [hgen, hst] at hfind
      rwa [detachedSlot_make hmax]
  · rw [hmap]
    refine nodup_append.2 ⟨h.nodup, nodup_singleton d, fun a ha b hb hab => hnot ?_⟩
    rw [← mem_singleton.1 hb, ← hab]
    exact ha

theorem ExportHeld.changed (hm : handle ∈ handles)
    (hf : s.findDetachedEntry handle .reserved = some (d, e)) {e' : KernelDetachedEntry}
    (hslot : e'.slot = e.slot) (hgen : e'.generation = e.generation) (hst : e'.state = e.state) :
    ExportHeld s₀ (s.setDetached d e') handles k := by
  obtain ⟨hd, hres, hds, hmake⟩ := findDetachedEntry_some hf
  have hmem : d ∈ handles.map detachedSlot := hds ▸ mem_map_of_mem hm
  have hmax : d < kernelHandleDetachedMax := lt_of_lt_of_le (h.shape.lt_limit hd) h.shape.limit_le
  have hat : ∀ i, (s.setDetached d e').detachedEntryAt i =
      if i = d then some e' else s.detachedEntryAt i := detachedEntryAt_setDetached s hd
  obtain ⟨hes, heg, hem, -⟩ := h.entries d e hd
  refine ⟨h.shape.setDetached d e', h.healthy, ⟨h.outside.1, h.outside.2, h.outside.3, h.outside.4⟩,
    h.units, fun i x hx => ?_, fun i hi x hx => ?_, h.free, fun other hm' => ?_, h.nodup⟩
  · rw [hat] at hx
    split_ifs at hx with hi
    · cases hx
      exact ⟨hslot.trans (hi ▸ hes), hgen ▸ heg, hgen ▸ hem, fun h1 => absurd (hi ▸ hmem) h1⟩
    · exact h.entries i x hx
  · have hne : i ≠ d := fun h1 => hi (h1 ▸ hmem)
    rw [hat, if_neg hne]
    exact h.inUse i hi x hx
  · obtain ⟨x, hx⟩ := h.found other hm'
    by_cases hi : detachedSlot other = d
    · -- slots are named once, so this is the same handle
      obtain ⟨hx1, hx2, -, hx3⟩ := findDetachedEntry_some hx
      rw [hi, hd] at hx1
      cases hx1
      have hfind := findDetachedEntry_make (s := s.setDetached d e') (e := e')
        (by rw [hat, if_pos rfl]) hmax (hgen ▸ heg)
      rw [hgen, hst, hres] at hfind
      have ho : other = makeDetachedHandle d e.generation := hx3.trans (by rw [hi])
      refine ⟨e', ?_⟩
      rw [ho, detachedSlot_make hmax]
      exact hfind
    · exact ⟨x, findDetachedEntry_kept hx (by rw [hat, if_neg hi])⟩

end

theorem clearDetachedEntry_valid (slot generation : ℕ) :
    detachedEntryValid slot
      (clearDetachedEntry slot (kernelGenerationNextMasked generation kernelDetachedGenerationMask)) := by
  have hg : kernelGenerationNextMasked generation kernelDetachedGenerationMask ≠ 0 ∧
      kernelGenerationNextMasked generation kernelDetachedGenerationMask ≤
        kernelDetachedGenerationMask := by
    unfold kernelGenerationNextMasked kernelDetachedGenerationMask
    split_ifs with h <;> omega
  exact ⟨rfl, hg.1, hg.2, rfl, rfl, rfl, rfl, rfl, rfl⟩

theorem detachedUnitRelease_eq (hu : s.detachedUnits ≠ 0) : s.detachedUnitRelease =
    (true, { s with detachedUnits := s.detachedUnits - 1 }) := if_neg hu

theorem freeDetachedEntry_eq (hu : s.detachedUnits ≠ 0) :
    s.freeDetachedEntry d e = { s.setDetached d (clearDetachedEntry e.slot
      (kernelGenerationNextMasked e.generation kernelDetachedGenerationMask)) with
      detachedNextSlot := if e.slot < s.detachedNextSlot then e.slot else s.detachedNextSlot
      detachedUnits := s.detachedUnits - 1 } := by
  unfold freeDetachedEntry
  dsimp only
  rw [detachedUnitRelease_eq]
  · rfl
  · exact hu

theorem ExportHeld.freed (h : ExportHeld s₀ s (handle :: handles) (k + 1)) :
    ∃ e, s.findDetachedEntry handle .reserved = some (detachedSlot handle, e) ∧
      ExportHeld s₀ (s.freeDetachedEntry (detachedSlot handle) e) handles k := by
  obtain ⟨e, hf⟩ := h.found handle mem_cons_self
  have hd := (findDetachedEntry_some hf).1
  obtain ⟨hslot, -⟩ := h.entries _ e hd
  obtain ⟨hnot, hnd⟩ := nodup_cons.1 h.nodup
  have hunits : s.detachedUnits ≠ 0 := by
    have := h.units
    omega
  have hshape := h.shape.freed (detachedSlot handle) e
  have hat : ∀ i, (s.freeDetachedEntry (detachedSlot handle) e).detachedEntryAt i =
      if i = detachedSlot handle then some (clearDetachedEntry e.slot
        (kernelGenerationNextMasked e.generation kernelDetachedGenerationMask))
      else s.detachedEntryAt i := by
    intro i
    rw [freeDetachedEntry_eq hunits]
    exact detachedEntryAt_setDetached s hd i
  refine ⟨e, hf, hshape, ?_, ?_, ?_, fun i x hx => ?_, fun i hi x hx => ?_,
    fun i hi => h.free i (mem_cons_of_mem _ hi), fun other hm => ?_, hnd⟩
  · rw [freeDetachedEntry_eq hunits]
    exact h.healthy
  · rw [freeDetachedEntry_eq hunits]
    exact ⟨h.outside.1, h.outside.2, h.outside.3, h.outside.4⟩
  · have hu := h.units
    rw [freeDetachedEntry_eq hunits]
    dsimp only
    omega
  · rw [hat] at hx
    split_ifs at hx with hi
    · cases hx
      have hv := clearDetachedEntry_valid e.slot e.generation
      rw [hslot, ← hi] at hv ⊢
      exact ⟨hv.1, hv.2.1, hv.2.2.1, fun _ => hv⟩
    · obtain ⟨h1, h2, h3, h4⟩ := h.entries i x hx
      exact ⟨h1, h2, h3, fun h5 => h4 (by simpa [hi] using h5)⟩
  · rw [hat]
    split_ifs with hslot'
    · refine iff_of_false (fun h1 => hx (Option.some.inj h1 ▸ rfl)) fun h1 => ?_
      exact hx (h.free i (by simp [hslot']) x h1)
    · exact h.inUse i (by simpa [hslot'] using hi) x hx
  · obtain ⟨x, hx⟩ := h.found other (mem_cons_of_mem _ hm)
    have hne : detachedSlot other ≠ detachedSlot handle := fun h1 =>
      hnot (h1 ▸ mem_map_of_mem hm)
    exact ⟨x, findDetachedEntry_kept hx (by rw [hat, if_neg hne])⟩

/-! ## The loops -/

theorem freeReservedEach_held : ∀ (handles : List ℕ) (s : HandleState),
    ExportHeld s₀ s handles handles.length →
    ∃ s', freeReservedEach handles s = (true, s') ∧ ExportHeld s₀ s' [] 0
  | [], s, h => ⟨s, rfl, h⟩
  | handle :: handles, s, h => by
    obtain ⟨e, hf, h'⟩ := h.freed
    obtain ⟨s', hs', hheld⟩ := freeReservedEach_held handles _ h'
    refine ⟨s', ?_, hheld⟩
    rw [freeReservedEach, hf]
    exact hs'

theorem prepareEach_held (τ : ℕ) (grants : ℕ → DetachedGrant) : ∀ (handles : List ℕ)
    (made : List (ℕ × ℕ)) (s : HandleState), ExportHeld s₀ s (made.map Prod.fst) made.length →
    (∀ handle ∈ handles, ∃ i, findEntry s₀ τ handle = .ok i) →
    (prepareEach τ grants handles made s).1 = .corrupt ∧ (∃ k, (grants k).commit = false) ∨
    ∃ made' s', ExportHeld s₀ s' (made'.map Prod.fst) made'.length ∧
      (prepareEach τ grants handles made s = (.exhausted, made', s') ∨
        made'.length = made.length + handles.length ∧
          prepareEach τ grants handles made s = (.complete, made', s'))
  | [], made, s, h, _ => .inr ⟨made, s, h, .inr ⟨rfl, rfl⟩⟩
  | handle :: handles, made, s, h, hsrc => by
    obtain ⟨s₁, hs₁, hl, hclaim⟩ := claimDetachedEntry_shape h.shape (grants made.length)
    have h₁ := h.leafAdded hs₁ hl
    rcases hclaim with hclaim | ⟨d, e, hd, hf, hclaim⟩
    · refine .inr ⟨made, s₁, h₁, .inl ?_⟩
      rw [prepareEach, hclaim]
    split at hclaim
    · rename_i hc
      refine .inl ⟨?_, _, hc⟩
      rw [prepareEach, hclaim]
    obtain ⟨i, hi⟩ := hsrc handle mem_cons_self
    have h₂ := h₁.claimed hd
    obtain ⟨s₂, hs₂⟩ : ∃ s₂ : HandleState, s₂ = { s₁ with
      detachedNextSlot := nextDetachedSlot d, detachedUnits := s₁.detachedUnits + 1 } := ⟨_, rfl⟩
    rw [← hs₂] at hclaim h₂
    have hd₂ : s₂.detachedEntryAt d = some e := by
      rw [hs₂]
      exact hd
    have hi₂ : findEntry s₂ τ handle = .ok i := by
      rw [findEntry_congr h₂.outside.tables, hi]
    obtain ⟨-, hg0, hgm, -⟩ := h₂.entries d e hd₂
    have hgen : normalGeneration e.generation kernelDetachedGenerationMask = e.generation := by
      unfold normalGeneration
      rw [if_neg (by omega)]
    have hfill := h₂.filled hd₂ hf { e with
      object := (s₂.entry τ i).object, retain := (s₂.entry τ i).retain,
      release := (s₂.entry τ i).release, releaseContext := (s₂.entry τ i).releaseContext,
      rights := (s₂.entry τ i).rights, type := (s₂.entry τ i).type, state := .reserved } rfl rfl rfl
    have ih := prepareEach_held τ grants handles
      (made ++ [(makeDetachedHandle d e.generation, handle)]) _ (by simpa using hfill)
      fun other hm => hsrc other (mem_cons_of_mem _ hm)
    rw [prepareEach, hclaim]
    simp only [hd₂, hf, ne_eq, not_true_eq_false, if_false, hgen, hi₂]
    refine ih.imp id fun ⟨made', s', hheld, hres⟩ => ⟨made', s', hheld, ?_⟩
    rw [length_append, length_singleton] at hres
    rw [length_cons]
    exact hres.imp id fun h1 => ⟨by omega, h1.2⟩

variable (F : KernelHandleImportRights)

theorem narrowCheck_held (masks : ℕ → HandleRights) : ∀ (index : ℕ) (handles : List ℕ),
    (∀ handle ∈ handles, ∃ d e, s.findDetachedEntry handle .reserved = some (d, e)) →
    (narrowCheck F masks s index handles).2 = s
  | _, [], _ => rfl
  | index, handle :: handles, h => by
    obtain ⟨d, e, hf⟩ := h handle mem_cons_self
    rw [narrowCheck, hf]
    dsimp only
    split_ifs
    · rfl
    · exact narrowCheck_held masks (index + 1) handles fun other hm =>
        h other (mem_cons_of_mem _ hm)

theorem narrowEach_held (masks : ℕ → HandleRights) : ∀ (index : ℕ) (rest : List ℕ)
    (s : HandleState), ExportHeld s₀ s handles k → rest ⊆ handles →
    ∃ s', narrowEach masks index rest s = (.ok, s') ∧ ExportHeld s₀ s' handles k
  | _, [], s, h, _ => ⟨s, rfl, h⟩
  | index, handle :: rest, s, h, hr => by
    have hm : handle ∈ handles := hr mem_cons_self
    obtain ⟨e, hf⟩ := h.found handle hm
    rw [narrowEach, hf]
    exact narrowEach_held masks (index + 1) rest _ (h.changed hm hf rfl rfl rfl)
      fun other hm' => hr (mem_cons_of_mem _ hm')

end held

/-! ## The audit -/

section audit

variable {s₀ s s' : HandleState} {d : ℕ}

theorem takeWhile_range_lt {p : ℕ → Bool} {k n : ℕ} (hk : k ≤ n)
    (hp : ∀ i < n, p i = true ↔ i < k) : (List.range n).takeWhile p = List.range k := by
  obtain ⟨m, rfl⟩ := Nat.exists_eq_add_of_le hk
  have hpos : ∀ i ∈ List.range k, p i = true := fun i hi =>
    (hp i (by have := mem_range.1 hi; omega)).2 (mem_range.1 hi)
  rw [range_add, takeWhile_append_of_pos hpos]
  rcases m with _ | m
  · simp
  · have hk' : ¬ p k = true := fun h => absurd ((hp k (by omega)).1 h) (lt_irrefl k)
    simp [range_succ_eq_map, hk']

variable {state : KernelDetachedState}

theorem mem_detachedIn : d ∈ detachedIn s state ↔
    d < s.detachedBackedLimit ∧ ∃ e, s.detachedEntryAt d = some e ∧ e.state = state := by
  simp only [detachedIn, Finset.mem_filter, Finset.mem_range, Option.any_eq_true, decide_eq_true_eq]

theorem detachedIn_eq (h₀ : PoolShape s₀) (h : PoolShape s) (hu : ∀ d e, e.state ≠ .free →
    (s.detachedEntryAt d = some e ↔ s₀.detachedEntryAt d = some e))
    (hst : state ≠ .free) : detachedIn s state = detachedIn s₀ state := by
  ext d
  rw [mem_detachedIn, mem_detachedIn]
  constructor
  · rintro ⟨-, e, he, rfl⟩
    have he' := (hu d e hst).1 he
    exact ⟨h₀.lt_limit he', e, he', rfl⟩
  · rintro ⟨-, e, he, rfl⟩
    have he' := (hu d e hst).2 he
    exact ⟨h.lt_limit he', e, he', rfl⟩

theorem transferPoolValid_entry (hs : PoolShape s) (hp : kernelHandleTransferPoolValid s)
    {e : KernelDetachedEntry} (hd : s.detachedEntryAt d = some e) : detachedEntryValid d e := by
  obtain ⟨x, hx, hv⟩ := hp.2.2.2.1 d (hs.lt_limit hd)
  rw [Option.mem_def, hd] at hx
  exact Option.some.inj hx ▸ hv

theorem ExportHeld.refl (hs : PoolShape s) (hp : kernelHandleTransferPoolValid s) :
    ExportHeld s s [] 0 :=
  .start hs hp.1 fun _ _ hd => transferPoolValid_entry hs hp hd

theorem ExportHeld.valid (h : ExportHeld s₀ s [] 0) (hs₀ : PoolShape s₀)
    (hp : kernelHandleTransferPoolValid s₀) : kernelHandleTransferPoolValid s := by
  have hin : ∀ state, state ≠ .free → detachedIn s state = detachedIn s₀ state := fun state hst =>
    detachedIn_eq hs₀ h.shape (fun d => h.inUse d not_mem_nil) hst
  obtain ⟨leaves, hle, hsome, hlimit, hmeta⟩ := h.shape.leaves
  have hleaves : allocatedLeaves s = leaves := by
    unfold allocatedLeaves
    rw [takeWhile_range_lt hle hsome, length_range]
  unfold kernelHandleTransferPoolValid at hp ⊢
  obtain ⟨-, -, -, -, hunits, -, hrest⟩ := hp
  rw [hin .live (by simp), hin .reserved (by simp), hleaves, h.outside.stats, h.units]
  refine ⟨h.healthy, fun leaf hl hge => ?_, hlimit, fun d hd => ?_, hunits, hmeta, hrest⟩
  · refine Option.not_isSome_iff_eq_none.1 fun h1 => ?_
    have := (hsome leaf hl).1 h1
    omega
  · obtain ⟨e, he⟩ := Option.isSome_iff_exists.1 ((h.shape.backed d).2 hd)
    exact ⟨e, he, (h.entries d e he).2.2.2 not_mem_nil⟩

theorem ExportHeld.reserved_fits {handles : List ℕ} {k : ℕ} (h : ExportHeld s₀ s handles k)
    (hs₀ : PoolShape s₀) :
    (detachedIn s₀ .reserved).card + handles.length ≤ kernelHandleDetachedMax := by
  have hsub : detachedIn s₀ .reserved ∪ (handles.map detachedSlot).toFinset ⊆
      Finset.range kernelHandleDetachedMax := by
    intro d hd
    rw [Finset.mem_range]
    rcases Finset.mem_union.1 hd with hd | hd
    · exact lt_of_lt_of_le (mem_detachedIn.1 hd).1 hs₀.limit_le
    · obtain ⟨e, he, -⟩ := h.reserved (mem_toFinset.1 hd)
      exact lt_of_lt_of_le (h.shape.lt_limit he) h.shape.limit_le
  have hdisj : Disjoint (detachedIn s₀ .reserved) (handles.map detachedSlot).toFinset := by
    rw [Finset.disjoint_left]
    intro d hd hm
    obtain ⟨-, e, he, hst⟩ := mem_detachedIn.1 hd
    have hf := h.free d (mem_toFinset.1 hm) e he
    rw [hst] at hf
    simp at hf
  have hcard := Finset.card_le_card hsub
  rwa [Finset.card_union_of_disjoint hdisj, toFinset_card_of_nodup h.nodup, length_map,
    Finset.card_range] at hcard

theorem tableValid_slot {τ i : ℕ} (h : kernelHandleTableValid s τ = true)
    (hi : i < kernelHandleMaxEntries) : s.slotFree τ i = true ↔
      (s.entry τ i).occupied = false ∧ (s.entry τ i).reserved = .none := by
  unfold kernelHandleTableValid at h
  rw [Bool.and_eq_true, all_eq_true] at h
  have h1 := h.2 i (mem_range.2 hi)
  rw [Bool.and_eq_true, beq_iff_eq] at h1
  rw [h1.2]
  simp

theorem findEntry_ne_corrupt {τ : ℕ} (h : kernelHandleTableValid s τ = true) (handle : ℕ) :
    findEntry s τ handle ≠ .error .corrupt := by
  intro hf
  unfold findEntry at hf
  dsimp only at hf
  split_ifs at hf with h1 h2 h3
  · simp at hf
  · have hfree := (tableValid_slot h (i := handle % 256 - 1) (by
      omega)).1 h2.2
    rw [hfree.1] at h2
    simp at h2
  · simp at hf

theorem Undone.of_tables (ht : s'.tables = s.tables) (hu : s'.slotUnits = s.slotUnits)
    (hd : ∀ d e, e.state ≠ .free → (s'.detachedEntryAt d = some e ↔ s.detachedEntryAt d = some e))
    (hp : kernelHandleTransferPoolValid s') : Undone s s' := by
  have he : s'.entry = s.entry := by
    funext τ i
    unfold HandleState.entry
    rw [ht]
  have hf : s'.slotFree = s.slotFree := by
    funext τ i
    unfold HandleState.slotFree
    rw [ht]
  refine ⟨fun τ i => by rw [he], fun τ i => by rw [hf], hu, hd, fun τ hτ => ?_, hp⟩
  unfold kernelHandleTableValid at hτ ⊢
  rwa [ht, he, hf]

theorem ExportHeld.undone (h : ExportHeld s₀ s' [] 0) (hs₀ : PoolShape s₀)
    (hp : kernelHandleTransferPoolValid s₀) (ht : s₀.tables = s.tables)
    (hu : s₀.slotUnits = s.slotUnits) (hd : s₀.detachedEntryAt = s.detachedEntryAt) :
    Undone s s' :=
  .of_tables (h.outside.tables.trans ht) (h.outside.slotUnits.trans hu)
    (fun d e he => hd ▸ h.inUse d not_mem_nil e he) (h.valid hs₀ hp)

theorem transferPoolValid_setStats (hp : kernelHandleTransferPoolValid s)
    {stats : KernelHandleTransferStats} (hl : stats.liveDetached = s.transferStats.liveDetached)
    (hr : stats.reservedDetached = s.transferStats.reservedDetached)
    (hm : stats.maxLiveDetached = s.transferStats.maxLiveDetached) :
    kernelHandleTransferPoolValid (s.setStats stats) := by
  obtain ⟨h1, h2, h3, h4, h5, h6, h7, h8, h9, h10, h11, h12⟩ := hp
  exact ⟨h1, h2, h3, h4, h5, h6, h7.trans hl.symm, h8.trans hr.symm, h9, h10, h11.trans hm.ge,
    hm.le.trans h12⟩

end audit

/-! ## The calls -/

section calls

variable (F : KernelHandleImportRights) {s₀ s p : HandleState} {τ : ℕ}

theorem validateSources_valid (ht : kernelHandleTableValid s τ = true) (required : HandleRights) :
    ∀ prior handles : List ℕ, (validateSources F s τ required prior handles).2 = s ∧
      ((validateSources F s τ required prior handles).1 = .ok →
        ∀ handle ∈ handles, ∃ i, findEntry s τ handle = .ok i)
  | _, [] => ⟨rfl, fun _ _ hm => absurd hm not_mem_nil⟩
  | prior, handle :: handles => by
    rw [validateSources]
    rcases hf : findEntry s τ handle with status | i
    · have hne : status ≠ .corrupt := fun h1 => findEntry_ne_corrupt ht handle (h1 ▸ hf)
      have hok : status ≠ .ok := fun h1 => findEntry_ne_ok s τ handle (h1 ▸ hf)
      refine ⟨?_, fun h1 => absurd h1 hok⟩
      cases status <;> first | rfl | exact absurd rfl hne
    · dsimp only
      have ih := validateSources_valid ht required (prior ++ [handle]) handles
      split_ifs
      · exact ⟨rfl, fun h1 => by simp at h1⟩
      · exact ⟨rfl, fun h1 => by simp at h1⟩
      · exact ⟨rfl, fun h1 => by simp at h1⟩
      · exact ⟨rfl, fun h1 => by simp at h1⟩
      · refine ⟨ih.1, fun h1 => ?_⟩
        simp only [mem_cons, forall_eq_or_imp]
        exact ⟨⟨i, hf⟩, ih.2 h1⟩

theorem validateTransferSources_valid (ht : kernelHandleTableValid s τ = true) (handles : List ℕ)
    (required : HandleRights) : (validateTransferSources F s τ handles required).2 = s ∧
      ((validateTransferSources F s τ handles required).1 = .ok → handles ≠ [] ∧
        ∀ handle ∈ handles, ∃ i, findEntry s τ handle = .ok i) := by
  unfold validateTransferSources
  split_ifs with h
  · exact ⟨rfl, fun h1 => by simp at h1⟩
  · obtain ⟨h1, h2⟩ := validateSources_valid F ht required [] handles
    exact ⟨h1, fun h3 => ⟨fun h4 => h (.inl h4), h2 h3⟩⟩

theorem prepare_held (hs : PoolShape s) (hp : kernelHandleTransferPoolValid s)
    (ht : kernelHandleTableValid s τ = true) (handles : List ℕ) (required : HandleRights) (b : ℕ)
    (grants : ℕ → DetachedGrant) :
    (kernelHandleTransferPrepare F s τ handles required b grants).1 = .corrupt ∧
      (∃ k, (grants k).commit = false) ∨
    ((kernelHandleTransferPrepare F s τ handles required b grants).1 ≠ .ok ∧
      Undone s (kernelHandleTransferPrepare F s τ handles required b grants).2) ∨
    ∃ made s₁, made ≠ [] ∧
      ExportHeld (s.setBatch b emptyTransferBatch) s₁ (made.map Prod.fst) made.length ∧
      kernelHandleTransferPrepare F s τ handles required b grants =
        (.ok, (s₁.setBatch b { entries := made, state := .prepared }).setStats { s₁.transferStats with
          reservedDetached := s₁.transferStats.reservedDetached + made.length
          preparedExports := s₁.transferStats.preparedExports + 1 }) := by
  obtain ⟨s₀, hs₀⟩ : ∃ s₀, s₀ = s.setBatch b emptyTransferBatch := ⟨_, rfl⟩
  have hheld : ExportHeld s₀ s₀ [] 0 := hs₀ ▸ (ExportHeld.refl hs hp).setBatch b emptyTransferBatch
  have hshape : PoolShape s₀ := hheld.shape
  have hp₀ : kernelHandleTransferPoolValid s₀ := hs₀ ▸ hp
  have ht₀ : kernelHandleTableValid s₀ τ = true := hs₀ ▸ ht
  have htab : s₀.tables = s.tables := hs₀ ▸ rfl
  have hun : s₀.slotUnits = s.slotUnits := hs₀ ▸ rfl
  have hdet : s₀.detachedEntryAt = s.detachedEntryAt := hs₀ ▸ rfl
  unfold kernelHandleTransferPrepare
  rw [← hs₀]
  obtain ⟨h1, h2⟩ := validateTransferSources_valid F ht₀ handles required
  rcases hv : validateTransferSources F s₀ τ handles required with ⟨status, s₁⟩
  rw [hv] at h1 h2
  subst h1
  by_cases hok : status = .ok
  swap
  · right
    left
    have hundone := hheld.undone hshape hp₀ htab hun hdet
    cases status <;> first | exact absurd rfl hok | exact ⟨by simp, hundone⟩
  subst hok
  obtain ⟨hne, hsrc⟩ := h2 rfl
  dsimp only
  obtain ⟨hcorrupt, hc⟩ | ⟨made, s₂, hheld₂, hres | ⟨hlen, hres⟩⟩ :=
    prepareEach_held τ grants handles [] s₁ hheld hsrc
  · refine .inl ⟨?_, hc⟩
    generalize prepareEach τ grants handles [] s₁ = r at hcorrupt ⊢
    rcases r with ⟨_ | _ | _, made, s₂⟩
    · simp at hcorrupt
    · simp at hcorrupt
    · rfl
  · right
    left
    rw [hres]
    dsimp only
    rw [← length_map (f := Prod.fst)] at hheld₂
    obtain ⟨s₃, hfree, hheld₃⟩ := freeReservedEach_held _ _ hheld₂
    rw [hfree]
    refine ⟨by simp, (hheld₃.setStats _).undone ⟨hshape.leaves, hshape.next⟩ ?_ htab hun hdet⟩
    rw [hheld₃.outside.stats]
    exact transferPoolValid_setStats hp₀ rfl rfl rfl
  · right
    right
    rw [length_nil, Nat.zero_add] at hlen
    refine ⟨made, s₂, ?_, hheld₂, ?_⟩
    · rintro rfl
      exact hne (length_eq_zero_iff.1 hlen.symm)
    rw [hres]
    dsimp only
    have hfits := hheld₂.reserved_fits hshape
    have hcount : (detachedIn s₁ .reserved).card = s₁.transferStats.reservedDetached :=
      hp₀.2.2.2.2.2.2.2.1
    rw [length_map, hcount, ← hheld₂.outside.stats] at hfits
    have hstats : (s₂.setBatch b { entries := made, state := .prepared }).transferStats =
      s₂.transferStats := rfl
    rw [hstats, if_neg (by omega), hlen]

variable {made : List (ℕ × ℕ)}

theorem narrow_held {k b : ℕ} (h : ExportHeld s₀ s (made.map Prod.fst) k)
    (hb : s.batches b = { entries := made, state := .prepared }) (masks : ℕ → HandleRights) :
    ExportHeld s₀ (kernelHandleTransferNarrow F s b masks).2 (made.map Prod.fst) k ∧
      ((kernelHandleTransferNarrow F s b masks).1 ≠ .ok →
        (kernelHandleTransferNarrow F s b masks).2 = s) := by
  unfold kernelHandleTransferNarrow
  rw [hb]
  simp only [KernelHandleTransferBatch.detached, ne_eq, not_true_eq_false, false_or]
  split
  · exact ⟨h, fun _ => rfl⟩
  have hcheck := narrowCheck_held F masks 0 (made.map Prod.fst)
    fun handle hm => ⟨_, (h.found handle hm)⟩
  rcases hn : narrowCheck F masks s 0 (made.map Prod.fst) with ⟨status, s₁⟩
  rw [hn] at hcheck
  subst hcheck
  by_cases hok : status = .ok
  · subst hok
    obtain ⟨s', hs', hheld⟩ := narrowEach_held masks 0 (made.map Prod.fst) s₁ h fun _ hm => hm
    dsimp only
    rw [hs']
    exact ⟨hheld, fun h1 => absurd rfl h1⟩
  · cases status <;> first | exact absurd rfl hok | exact ⟨h, fun _ => rfl⟩

theorem rollback_held {b : ℕ} (h : ExportHeld s₀ s (made.map Prod.fst) made.length)
    (hb : s.batches b = { entries := made, state := .prepared }) (hne : made ≠ [])
    (hr : made.length ≤ s.transferStats.reservedDetached) :
    ∃ s₁, ExportHeld s₀ s₁ [] 0 ∧ kernelHandleTransferRollback s b =
      (.ok, (s₁.setStats { s₁.transferStats with
        reservedDetached := s₁.transferStats.reservedDetached - made.length
        exportRollbacks := s₁.transferStats.exportRollbacks + 1 }).setBatch b emptyTransferBatch) := by
  have hlen : made.length ≠ 0 := fun h1 => hne (length_eq_zero_iff.1 h1)
  have hall : ((made.map Prod.fst).any fun handle =>
      (s.findDetachedEntry handle .reserved).isNone) = false := by
    rw [any_eq_false]
    intro handle hm
    obtain ⟨e, hf⟩ := h.found handle hm
    simp [hf]
  rw [← length_map (f := Prod.fst)] at h
  obtain ⟨s₁, hfree, hheld⟩ := freeReservedEach_held _ _ h
  refine ⟨s₁, hheld, ?_⟩
  unfold kernelHandleTransferRollback
  rw [hb]
  simp only [KernelHandleTransferBatch.detached, ne_eq, not_true_eq_false, false_or, hlen, if_false,
    hall, Bool.false_eq_true, Nat.not_lt.2 hr, hfree]

end calls

end Astra
