import AstraKernel.Proofs.HandleSteps

/-!
# Exports and imports are sequences of updates

The loops that change entries run after loops that check them, so each keeps what the check found
at the entries it has not come to.
-/

namespace Astra

open HandleState List

variable {F : KernelHandleImportRights} {s₀ : HandleState} {ev : HandleEvent}

section pool

theorem ensureDetachedLeaf_spec (s : HandleState) (granted : Bool) (slot : ℕ) :
    (s.ensureDetachedLeaf granted slot).2.tables = s.tables ∧
      HandleUpdates F s₀ ev s.view (s.ensureDetachedLeaf granted slot).2.view := by
  unfold ensureDetachedLeaf
  simp only
  split_ifs with h1 h2
  · exact ⟨rfl, .refl⟩
  · exact ⟨rfl, .refl⟩
  · refine ⟨rfl, .single (.backed s.view _ ?_ ?_)⟩
    · intro d e hd
      have hne : d / detachedLeafEntries ≠ slot / detachedLeafEntries := by
        intro hne
        rw [view_detached] at hd
        unfold detachedEntryAt at hd
        rw [hne, Option.not_isSome_iff_eq_none.1 h1] at hd
        split_ifs at hd
        simp at hd
      rw [view_detached] at hd
      simpa [detachedEntryAt, Function.update_of_ne hne] using hd
    · intro d e hd he
      by_cases hl : d / detachedLeafEntries = slot / detachedLeafEntries
      · unfold detachedEntryAt at he
        split_ifs at he
        rw [hl] at he
        obtain rfl : freshDetachedLeaf (slot / detachedLeafEntries) (d % detachedLeafEntries) = e := by
          simpa using he
        rfl
      · rw [view_detached] at hd
        have hs : s.detachedEntryAt d = some e := by
          simpa [detachedEntryAt, Function.update_of_ne hl] using he
        rw [hs] at hd
        simp at hd

theorem claimScan_spec (grant : DetachedGrant) : ∀ (n candidate : ℕ) (s : HandleState),
    (s.claimScan grant n candidate).2.2.tables = s.tables ∧
      HandleUpdates F s₀ ev s.view (s.claimScan grant n candidate).2.2.view ∧
      ∀ slot s', s.claimScan grant n candidate = (.ok, slot, s') →
        ∃ e, s'.detachedEntryAt slot = some e ∧ e.state = .free
  | 0, candidate, s => by
    refine ⟨rfl, .refl, fun slot s' h => ?_⟩
    simp [claimScan] at h
  | n + 1, candidate, s => by
    obtain ⟨ht, hu⟩ := @ensureDetachedLeaf_spec F s₀ ev s
      (grant.leaf candidate) candidate
    unfold claimScan
    generalize s.ensureDetachedLeaf (grant.leaf candidate) candidate = r at ht hu ⊢
    obtain ⟨_ | _, s₁⟩ := r
    · exact ⟨ht, hu, fun slot s' h => by simp at h⟩
    · simp only
      split_ifs with hf hc
      · exact ⟨ht, hu, fun slot s' h => by simp at h⟩
      · refine ⟨ht, hu, fun slot s' h => ?_⟩
        obtain ⟨rfl, rfl⟩ := h
        obtain ⟨e, he, hfree⟩ := (Option.any_eq_true _ _).1 hf
        exact ⟨e, he, by simpa using hfree⟩
      · obtain ⟨ht', hu', hok⟩ := claimScan_spec grant n (nextDetachedSlot candidate) s₁
        exact ⟨ht'.trans ht, hu.trans hu', hok⟩

theorem claimDetachedEntry_spec (s : HandleState) (grant : DetachedGrant) :
    (s.claimDetachedEntry grant).2.2.tables = s.tables ∧
      HandleUpdates F s₀ ev s.view (s.claimDetachedEntry grant).2.2.view ∧
      ∀ slot s', s.claimDetachedEntry grant = (.ok, slot, s') →
        ∃ e, s'.detachedEntryAt slot = some e ∧ e.state = .free := by
  unfold claimDetachedEntry
  split_ifs
  · exact ⟨rfl, .refl, fun slot s' h => by simp at h⟩
  · exact claimScan_spec grant _ _ s

variable {s s' : HandleState}

section

variable (h : s'.tables = s.tables)
include h

theorem entry_congr : s'.entry = s.entry := by
  funext τ i
  simp only [HandleState.entry, h]

theorem slotFree_congr : s'.slotFree = s.slotFree := by
  funext τ i
  simp only [HandleState.slotFree, h]

theorem findEntry_congr : findEntry s' = findEntry s := by
  funext τ handle
  simp only [findEntry, entry_congr h, slotFree_congr h]

end

def Sendable (s : HandleState) (τ : ℕ) (requiredRights : HandleRights) (handle : ℕ) : Prop :=
  ∃ i, findEntry s τ handle = .ok i ∧ (s.entry τ i).rights &&& requiredRights = requiredRights ∧
    (s.entry τ i).release ≠ none

theorem view_validateSources (s : HandleState) (τ : ℕ) (required : HandleRights) :
    ∀ prior handles : List ℕ,
      (validateSources F s τ required prior handles).2.view = s.view ∧
      ∀ s', validateSources F s τ required prior handles = (.ok, s') →
        s' = s ∧ ∀ h ∈ handles, Sendable s τ required h
  | prior, [] => ⟨rfl, fun s' h => by
      obtain rfl : s = s' := by simpa [validateSources] using h
      exact ⟨rfl, fun _ h => absurd h not_mem_nil⟩⟩
  | prior, handle :: handles => by
    unfold validateSources
    rcases hf : findEntry s τ handle with status | i
    · refine ⟨view_noting s status, fun s' h => ?_⟩
      obtain ⟨rfl, -⟩ : status = .ok ∧ s.noting status = s' := by simpa using h
      exact absurd hf (findEntry_ne_ok s τ handle)
    · simp only
      split_ifs with h1 h2 h3 h4
      · exact ⟨rfl, fun s' h => by simp at h⟩
      · exact ⟨rfl, fun s' h => by simp at h⟩
      · exact ⟨rfl, fun s' h => by simp at h⟩
      · exact ⟨rfl, fun s' h => by simp at h⟩
      · push Not at h1 h2
        obtain ⟨hv, hok⟩ := view_validateSources s τ required (prior ++ [handle]) handles
        refine ⟨hv, fun s' h => ?_⟩
        obtain ⟨rfl, hall⟩ := hok s' h
        refine ⟨rfl, fun x hx => ?_⟩
        rcases mem_cons.1 hx with rfl | hx
        · exact ⟨i, hf, h1, h2.2.1⟩
        · exact hall x hx

theorem validateTransferSources_spec (s : HandleState) (τ : ℕ) (handles : List ℕ)
    (required : HandleRights) :
    (validateTransferSources F s τ handles required).2.view = s.view ∧
      ∀ s', validateTransferSources F s τ handles required = (.ok, s') →
        s' = s ∧ ∀ h ∈ handles, Sendable s τ required h := by
  unfold validateTransferSources
  split_ifs
  · exact ⟨rfl, fun s' h => by simp at h⟩
  · exact view_validateSources s τ required [] handles

theorem prepareEach_updates {τ : ℕ} {grants : ℕ → DetachedGrant} {required : HandleRights}
    (hreq : required &&& handleRightTransfer = handleRightTransfer) :
    ∀ (handles : List ℕ) (made : List (ℕ × ℕ)) (s : HandleState), s.tables = s₀.tables →
      (∀ h ∈ handles, Sendable s₀ τ required h) →
      HandleUpdates F s₀ ev s.view (prepareEach τ grants handles made s).2.2.view
  | [], made, s, _, _ => .refl
  | handle :: handles, made, s, ht, hv => by
    obtain ⟨ht', hu, hok⟩ := @claimDetachedEntry_spec F s₀ ev s
      (grants made.length)
    unfold prepareEach
    generalize hc : s.claimDetachedEntry (grants made.length) = r at ht' hu hok ⊢
    obtain ⟨status, slot, s₁⟩ := r
    cases status
    · -- an entry was claimed: it is free, and the source is still what was validated
      obtain ⟨d, hd, hfree⟩ := hok slot s₁ rfl
      obtain ⟨i, hi, hri, hrel⟩ := hv handle mem_cons_self
      have hts : s₁.tables = s₀.tables := ht'.trans ht
      simp only [hd, hfree, ne_eq, not_true_eq_false, if_false, findEntry_congr hts, hi]
      refine hu.trans (.trans ?_ (prepareEach_updates hreq handles _ _ hts
        fun h hh => hv h (mem_cons_of_mem _ hh)))
      rw [view_setDetached s₁ hd]
      have he : s₁.entry = s₀.entry := entry_congr hts
      refine .single (.prepared s₁.view τ i slot d _ ?_ ?_ ?_ hd hfree rfl rfl ?_ rfl) <;>
        simp only [view_entry, he]
      · exact (findEntry_ok hi).2.1
      · rw [← hreq, ← BitVec.and_assoc, hri]
      · exact hrel
    · exact hu
    · exact hu

theorem freeReservedEach_updates : ∀ (handles : List ℕ) (s : HandleState),
    HandleUpdates F s₀ ev s.view (freeReservedEach handles s).2.view
  | [], s => .refl
  | handle :: handles, s => by
    unfold freeReservedEach
    rcases hf : s.findDetachedEntry handle .reserved with _ | ⟨d, e⟩
    · exact .refl
    · obtain ⟨hd, hst, -, -⟩ := findDetachedEntry_some hf
      refine .trans ?_ (freeReservedEach_updates handles _)
      rw [view_freeDetachedEntry s hd]
      exact .single (.unprepared s.view d _ e hd hst)

theorem transferPrepare_updates {τ b : ℕ} {handles : List ℕ}
    {required : HandleRights} {grants : ℕ → DetachedGrant}
    (hreq : required &&& handleRightTransfer = handleRightTransfer) :
    HandleUpdates F s ev s.view
      (kernelHandleTransferPrepare F s τ handles required b grants).2.view := by
  unfold kernelHandleTransferPrepare
  obtain ⟨hv, hok⟩ := validateTransferSources_spec (F := F) (s.setBatch b emptyTransferBatch) τ
    handles required
  generalize hr : validateTransferSources F (s.setBatch b emptyTransferBatch) τ handles required = r
    at hv hok ⊢
  obtain ⟨status, s₁⟩ := r
  by_cases hst : status = .ok
  · obtain ⟨hs, hall⟩ := hok s₁ (by rw [hst])
    subst hst hs
    simp only
    -- the batch is the only thing reset, so what was validated holds of the state before it
    have hall' : ∀ h ∈ handles, Sendable s τ required h := hall
    have hp := @prepareEach_updates F s ev τ grants required hreq handles []
      (s.setBatch b emptyTransferBatch) rfl hall'
    generalize prepareEach τ grants handles [] (s.setBatch b emptyTransferBatch) = q at hp ⊢
    obtain ⟨fin, made, s₂⟩ := q
    cases fin
    · simp only
      split_ifs
      · exact hp
      · exact hp
    · simp only
      have hfr := @freeReservedEach_updates F s ev (made.map Prod.fst) s₂
      generalize freeReservedEach (made.map Prod.fst) s₂ = q at hfr ⊢
      obtain ⟨_ | _, s₃⟩ := q
      · exact hp.trans hfr
      · exact hp.trans hfr
    · exact hp
  · have he : HandleUpdates F s ev s.view s₁.view := .of_eq hv
    cases status <;> first | exact he | exact absurd rfl hst

theorem view_narrowCheck (masks : ℕ → HandleRights) (s : HandleState) :
    ∀ (n : ℕ) (handles : List ℕ), (narrowCheck F masks s n handles).2.view = s.view
  | n, [] => rfl
  | n, handle :: handles => by
    unfold narrowCheck
    rcases s.findDetachedEntry handle .reserved with _ | ⟨d, e⟩
    · rfl
    · simp only
      split_ifs
      · rfl
      · exact view_narrowCheck masks s (n + 1) handles

theorem narrowEach_updates (masks : ℕ → HandleRights) : ∀ (handles : List ℕ) (n : ℕ)
    (s : HandleState), HandleUpdates F s₀ ev s.view (narrowEach masks n handles s).2.view
  | [], n, s => .refl
  | handle :: handles, n, s => by
    unfold narrowEach
    rcases hf : s.findDetachedEntry handle .reserved with _ | ⟨d, e⟩
    · exact .refl
    · obtain ⟨hd, hst, -, -⟩ := findDetachedEntry_some hf
      refine .trans ?_ (narrowEach_updates masks handles (n + 1) _)
      rw [view_setDetached s hd]
      exact .single (.narrowed s.view d e (masks n) hd hst)

theorem transferNarrow_updates (s : HandleState) (b : ℕ) (masks : ℕ → HandleRights) :
    HandleUpdates F s₀ ev s.view (kernelHandleTransferNarrow F s b masks).2.view := by
  unfold kernelHandleTransferNarrow
  simp only
  split_ifs
  · exact .refl
  · have hv := view_narrowCheck (F := F) masks s 0 (s.batches b).detached
    generalize narrowCheck F masks s 0 (s.batches b).detached = r at hv ⊢
    obtain ⟨status, s₁⟩ := r
    have he : HandleUpdates F s₀ ev s.view s₁.view := .of_eq hv
    cases status <;> first | exact he | exact he.trans (narrowEach_updates masks _ 0 s₁)

def Exportable (s : HandleState) (τ : ℕ) (p : ℕ × ℕ) : Prop :=
  ∃ i d e, findEntry s τ p.2 = .ok i ∧ s.findDetachedEntry p.1 .reserved = some (d, e) ∧
    e.grant = (s.entry τ i).grant

theorem exportCheck_spec (τ : ℕ) (s : HandleState) : ∀ pairs : List (ℕ × ℕ),
    (exportCheck τ s pairs).2.view = s.view ∧
      ∀ s', exportCheck τ s pairs = (.ok, s') → s' = s ∧ ∀ p ∈ pairs, Exportable s τ p
  | [] => ⟨rfl, fun s' h => by
      obtain rfl : s = s' := by simpa [exportCheck] using h
      exact ⟨rfl, fun _ h => absurd h not_mem_nil⟩⟩
  | (detached, handle) :: pairs => by
    unfold exportCheck
    rcases hf : findEntry s τ handle with status | i
    · exact ⟨view_noting s status, fun s' h => by simp at h⟩
    rcases hd : s.findDetachedEntry detached .reserved with _ | ⟨d, e⟩
    · exact ⟨rfl, fun s' h => by simp at h⟩
    simp only
    split_ifs with hc
    · exact ⟨rfl, fun s' h => by simp at h⟩
    · push Not at hc
      obtain ⟨hv, hok⟩ := exportCheck_spec τ s pairs
      refine ⟨hv, fun s' h => ?_⟩
      obtain ⟨rfl, hall⟩ := hok s' h
      refine ⟨rfl, fun p hp => ?_⟩
      rcases mem_cons.1 hp with rfl | hp
      · refine ⟨i, d, e, hf, hd, ?_⟩
        rw [KernelDetachedEntry.grant, KernelHandleEntry.grant, hc.1, hc.2.2.1]
      · exact hall p hp

theorem exportEach_updates {τ : ℕ} {s₁ : HandleState} : ∀ (pairs : List (ℕ × ℕ)) (s : HandleState),
    (∀ j, (s.entry τ j).occupied = true → s.entry τ j = s₁.entry τ j) →
    (∀ d e, s.detachedEntryAt d = some e → e.state = .reserved → s₁.detachedEntryAt d = some e) →
    (∀ p ∈ pairs, Exportable s₁ τ p) →
    HandleUpdates F s₀ ev s.view (exportEach τ pairs s).2.view
  | [], s, _, _, _ => .refl
  | (detached, handle) :: pairs, s, he, hd, hall => by
    unfold exportEach
    rcases hf : findEntry s τ handle with status | i
    · exact .refl
    rcases hfd : s.findDetachedEntry detached .reserved with _ | ⟨d, e⟩
    · exact .refl
    simp only
    obtain ⟨-, ho, -, -, -, -, hi⟩ := findEntry_ok hf
    obtain ⟨hde, hst, hds, -⟩ := findDetachedEntry_some hfd
    -- what the check found still stands at the entries this loop finds again
    obtain ⟨i', d', e', hf', hfd', hg⟩ := hall _ mem_cons_self
    obtain rfl : i = i' := by rw [hi, (findEntry_ok hf').2.2.2.2.2.2]
    obtain ⟨hde', -, hds', -⟩ := findDetachedEntry_some hfd'
    obtain rfl : d = d' := by rw [hds, hds']
    obtain rfl : e = e' := by simpa [hd d e hde hst] using hde'
    have hdr : (s.retireEntry τ i).detachedEntryAt d = some e := by
      rw [detached_retireEntry]
      exact hde
    refine .trans ?_ (exportEach_updates pairs _ (?_ : ∀ j, _ → _ = s₁.entry τ j) ?_
      fun p hp => hall p (mem_cons_of_mem _ hp))
    · rw [view_setDetached _ hdr, view_retireEntry]
      have h1 : HandleUpdates F s₀ ev s.view _ :=
        .single (.exported s.view τ i d e ho hde hst (by rw [view_entry, he i ho, hg]))
      exact h1.tail (.freed _ τ i (by simp [KernelHandleEntry.retired, freeHandleEntry])
        (by simp [KernelHandleEntry.retired, freeHandleEntry]))
    · intro j hj
      have hsj : ((s.retireEntry τ i).setDetached d
          { e with state := .live, reference := (s.entry τ i).reference }).entry τ j =
          if τ = τ ∧ j = i then (s.entry τ i).retired else s.entry τ j := entry_retireEntry s τ i τ j
      rw [hsj] at hj ⊢
      split_ifs at hj ⊢ with hji
      · simp [KernelHandleEntry.retired, freeHandleEntry] at hj
      · exact he j hj
    · intro d₂ e₂ h₂ hst₂
      rw [detachedEntryAt_setDetached _ hdr] at h₂
      split_ifs at h₂
      · cases h₂
        simp at hst₂
      · rw [detached_retireEntry] at h₂
        exact hd d₂ e₂ h₂ hst₂

theorem transferCommitExport_updates (s : HandleState) (τ b : ℕ) :
    HandleUpdates F s₀ ev s.view (kernelHandleTransferCommitExport s τ b).2.view := by
  unfold kernelHandleTransferCommitExport
  simp only
  split_ifs
  · exact .refl
  · obtain ⟨hv, hok⟩ := exportCheck_spec τ s (s.batches b).entries
    generalize exportCheck τ s (s.batches b).entries = r at hv hok ⊢
    obtain ⟨status, s₁⟩ := r
    by_cases hst : status = .ok
    · obtain ⟨hs, hall⟩ := hok s₁ (by rw [hst])
      subst hst hs
      simp only
      split_ifs
      · exact .refl
      · have hu := @exportEach_updates F s₀ ev τ s₁ _ s₁
          (fun _ _ => rfl) (fun _ _ h _ => h) hall
        generalize exportEach τ (s₁.batches b).entries s₁ = q at hu ⊢
        obtain ⟨status, s₂⟩ := q
        cases status <;> exact hu
    · have he : HandleUpdates F s₀ ev s.view s₁.view := .of_eq hv
      cases status <;> first | exact he | exact absurd rfl hst

theorem transferRollback_updates (s : HandleState) (b : ℕ) :
    HandleUpdates F s₀ ev s.view (kernelHandleTransferRollback s b).2.view := by
  unfold kernelHandleTransferRollback
  simp only
  split_ifs
  · exact .refl
  · exact .refl
  · exact .refl
  · have hu := @freeReservedEach_updates F s₀ ev (s.batches b).detached s
    generalize freeReservedEach (s.batches b).detached s = r at hu ⊢
    obtain ⟨_ | _, s₁⟩ := r <;> exact hu

end pool

section imports

theorem entry_releaseFreeSlot (s : HandleState) (τ i : ℕ) :
    (s.releaseFreeSlot τ i).2.entry = s.entry := by
  unfold releaseFreeSlot
  split_ifs
  · rfl
  · exact entry_setSlotFree s τ i true

theorem unreserveChecked_spec {s : HandleState} {τ slot : ℕ} (h : ¬ (s.entry τ slot).holds) :
    HandleUpdates F s₀ ev s.view (unreserveChecked τ s slot).2.view ∧
      ∀ j, ¬ (s.entry τ j).holds → ¬ ((unreserveChecked τ s slot).2.entry τ j).holds := by
  have hn : ¬ ({ s.entry τ slot with reserved := .none } : KernelHandleEntry).holds := by
    simpa [KernelHandleEntry.holds] using fun ho => h (.inl ho)
  have hu : HandleUpdates F s₀ ev s.view
      (s.setEntry τ slot { s.entry τ slot with reserved := .none }).view := by
    rw [view_setEntry]
    exact .single (.idle s.view τ slot _ h hn (fun hr => absurd rfl hr) rfl (.inl rfl))
  have hu' := hu.trans (releaseFreeSlot_updates _ τ slot)
  have hj : ∀ j, ¬ (s.entry τ j).holds → ¬ (((s.setEntry τ slot
      { s.entry τ slot with reserved := .none }).releaseFreeSlot τ slot).2.entry τ j).holds := by
    intro j hj
    rw [entry_releaseFreeSlot, entry_setEntry]
    split_ifs
    · exact hn
    · exact hj
  unfold unreserveChecked
  simp only
  generalize (s.setEntry τ slot { s.entry τ slot with reserved := .none }).releaseFreeSlot τ slot = r
    at hu' hj ⊢
  obtain ⟨_ | _, s₁⟩ := r
  · exact ⟨hu', hj⟩
  · refine ⟨?_, ?_⟩
    · rw [view_slotRelease]
      exact hu'
    · rw [← view_entry s₁.slotRelease.2, view_slotRelease]
      exact hj

theorem view_unreserve (s : HandleState) (τ slot : ℕ) : (unreserve τ s slot).view =
    ((s.setEntry τ slot { s.entry τ slot with reserved := .none }).releaseFreeSlot τ slot).2.view := by
  simp [unreserve]

variable {s : HandleState} {detached : List ℕ} {τ : ℕ}

theorem unreserve_spec {slot : ℕ} (h : ¬ (s.entry τ slot).holds) :
    HandleUpdates F s₀ ev s.view (unreserve τ s slot).view ∧
      ∀ j, ¬ (s.entry τ j).holds → ¬ ((unreserve τ s slot).entry τ j).holds := by
  have hn : ¬ ({ s.entry τ slot with reserved := .none } : KernelHandleEntry).holds := by
    simpa [KernelHandleEntry.holds] using fun ho => h (.inl ho)
  refine ⟨?_, ?_⟩
  · rw [view_unreserve]
    refine .trans ?_ (releaseFreeSlot_updates _ τ slot)
    rw [view_setEntry]
    exact .single (.idle s.view τ slot _ h hn (fun hr => absurd rfl hr) rfl (.inl rfl))
  · intro j hj
    rw [← view_entry, view_unreserve, view_entry, entry_releaseFreeSlot, entry_setEntry]
    split_ifs
    · exact hn
    · exact hj

theorem unreserves_updates {f : HandleState → ℕ → HandleState}
    (hf : ∀ s slot, ¬ (s.entry τ slot).holds → HandleUpdates F s₀ ev s.view (f s slot).view ∧
      ∀ j, ¬ (s.entry τ j).holds → ¬ ((f s slot).entry τ j).holds) :
    ∀ (slots : List ℕ) (s : HandleState), (∀ slot ∈ slots, ¬ (s.entry τ slot).holds) →
      HandleUpdates F s₀ ev s.view (slots.foldl f s).view
  | [], s, _ => .refl
  | slot :: slots, s, h => by
    obtain ⟨hu, hj⟩ := hf s slot (h slot mem_cons_self)
    exact hu.trans (unreserves_updates hf slots _
      fun j hm => hj j (h j (mem_cons_of_mem _ hm)))

theorem cancelEach_updates {τ : ℕ} : ∀ (slots : List ℕ) (s : HandleState),
    (∀ slot ∈ slots, ¬ (s.entry τ slot).holds) →
    HandleUpdates F s₀ ev s.view (cancelEach τ slots s).2.view
  | [], s, _ => .refl
  | slot :: slots, s, h => by
    obtain ⟨hu, hj⟩ := @unreserveChecked_spec F s₀ ev s τ slot (h slot mem_cons_self)
    unfold cancelEach
    generalize unreserveChecked τ s slot = r at hu hj ⊢
    obtain ⟨_ | _, s₁⟩ := r
    · exact hu
    · exact hu.trans (cancelEach_updates slots s₁
        fun j hm => hj j (h j (mem_cons_of_mem _ hm)))

theorem reserveSlot_spec {s : HandleState} {τ slot g : ℕ} (ho : (s.entry τ slot).occupied = false)
    (hr : (s.entry τ slot).reserved = .none)
    (hg : g = normalGeneration (s.entry τ slot).generation kernelHandleGenerationMask) :
    HandleUpdates F s₀ ev s.view ((s.setSlotFree τ slot false).setEntry τ slot
        { s.entry τ slot with generation := g, reserved := .importReserved }).view ∧
      ∀ j, ¬ (s.entry τ j).holds → ¬ (((s.setSlotFree τ slot false).setEntry τ slot
        { s.entry τ slot with generation := g, reserved := .importReserved }).entry τ j).holds := by
  refine ⟨?_, fun j hj => ?_⟩
  · rw [view_setEntry]
    refine (setSlotFree_updates s τ slot).tail (.idle _ τ slot _ ?_ ?_ ?_ ?_ (.inr ?_)) <;>
      simp [KernelHandleEntry.holds, ho, hr, hg]
  · rw [entry_setEntry]
    split_ifs
    · simp [KernelHandleEntry.holds, ho]
    · rwa [entry_setSlotFree]

theorem reserveEach_updates {τ count : ℕ} {grants : ℕ → SlotGrant} :
    ∀ (rest : List ℕ) (made : List (ℕ × ℕ)) (s : HandleState),
      (made.map Prod.fst ++ rest).Nodup → (∀ slot ∈ made.map Prod.fst, ¬ (s.entry τ slot).holds) →
      HandleUpdates F s₀ ev s.view (reserveEach τ count grants rest made s).2.2.view ∧
        ((reserveEach τ count grants rest made s).2.1.map Prod.fst).Nodup
  | [], made, s, hl, _ => ⟨.refl, by simpa [reserveEach] using hl⟩
  | slot :: rest, made, s, hl, hn => by
    have hslots : (made.map Prod.fst).Nodup := (nodup_append.1 hl).1
    have hrest : (made.map Prod.fst ++ rest).Nodup := by
      refine hl.sublist ?_
      exact List.Sublist.append_left (sublist_cons_self slot rest) _
    unfold reserveEach
    simp only
    split_ifs with h1 h2 h3 h4 h5
    · exact ⟨.refl, hslots⟩
    · exact reserveEach_updates rest made s hrest hn
    · exact ⟨.refl, hslots⟩
    · exact ⟨unreserves_updates (fun s slot h => unreserve_spec h) (made.map Prod.fst) s hn, nodup_nil⟩
    · -- the allocator fails: this slot and the ones before it are given back
      push Not at h2
      have ho : (s.entry τ slot).occupied = false := by simpa using h2.1
      obtain ⟨hu, hj⟩ := @reserveSlot_spec F s₀ ev s τ slot _ ho h2.2 rfl
      refine ⟨?_, nodup_nil⟩
      set s₁ := (s.setSlotFree τ slot false).setEntry τ slot { s.entry τ slot with
        generation := normalGeneration (s.entry τ slot).generation kernelHandleGenerationMask,
        reserved := .importReserved } with hs₁
      set e : KernelHandleEntry := { s.entry τ slot with
        generation := normalGeneration (s.entry τ slot).generation kernelHandleGenerationMask,
        reserved := .none } with he
      have hne : ¬ e.holds := by simp [he, KernelHandleEntry.holds, ho]
      have hslot : s₁.entry τ slot = { s.entry τ slot with
          generation := normalGeneration (s.entry τ slot).generation kernelHandleGenerationMask,
          reserved := .importReserved } := by
        rw [hs₁, entry_setEntry]
        simp
      have hu' : HandleUpdates F s₀ ev s₁.view (s₁.setEntry τ slot e).view := by
        rw [view_setEntry s₁]
        refine .single (.idle s₁.view τ slot e (hj slot ?_) hne ?_ ?_ (.inl ?_)) <;>
          simp [hslot, he, KernelHandleEntry.holds, ho, h2.2]
      have hfold := unreserves_updates (F := F) (f := fun s slot => flagUnless
        (unreserveChecked τ s slot)) (fun s slot h => by
          obtain ⟨h1, h2⟩ := @unreserveChecked_spec F s₀ ev s τ slot h
          refine ⟨by rwa [view_flagUnless], fun j hj => ?_⟩
          rw [← view_entry, view_flagUnless]
          exact h2 j hj) (made.map Prod.fst) (flagUnless ((s₁.setEntry τ slot e).releaseFreeSlot τ slot))
        (fun j hm => by
          rw [← view_entry, view_flagUnless, view_entry, entry_releaseFreeSlot, entry_setEntry]
          split_ifs
          · exact hne
          · exact hj j (hn j hm))
      rw [view_flag]
      refine (hu.trans hu').trans (.trans ?_ hfold)
      rw [view_flagUnless]
      exact releaseFreeSlot_updates _ τ slot
    · push Not at h2
      have ho : (s.entry τ slot).occupied = false := by simpa using h2.1
      obtain ⟨hu, hj⟩ := @reserveSlot_spec F s₀ ev s τ slot _ ho h2.2 rfl
      have hn' : ∀ j ∈ made.map Prod.fst ++ [slot], ¬ (((s.setSlotFree τ slot false).setEntry τ slot
          { s.entry τ slot with
            generation := normalGeneration (s.entry τ slot).generation kernelHandleGenerationMask,
            reserved := .importReserved }).slotCommit.entry τ j).holds := by
        intro j hm
        rcases mem_append.1 hm with hm | hm
        · exact hj j (hn j hm)
        · rw [mem_singleton.1 hm]
          exact hj slot (by simp [KernelHandleEntry.holds, ho, h2.2])
      obtain ⟨hu', hnd⟩ := reserveEach_updates rest (made ++ [(slot, _)]) _ (by simpa using hl)
        (by simpa using hn')
      exact ⟨hu.trans hu', hnd⟩

theorem importReserve_updates (s : HandleState) (τ r : ℕ) (detached : List ℕ)
    (grants : ℕ → SlotGrant) :
    HandleUpdates F s₀ ev s.view (kernelHandleImportReserve s τ detached r grants).2.view := by
  unfold kernelHandleImportReserve
  dsimp only
  by_cases h1 : kernelHandleTransferMax < detached.length
  · rw [if_pos h1]
  rw [if_neg h1]
  have hu : HandleUpdates F s₀ ev s.view (s.setReservation r emptyImportReservation).view :=
    .single (.reserved s.view r _ nodup_nil)
  rcases liveOnce (s.setReservation r emptyImportReservation) [] detached <;> try exact hu
  split_ifs
  · exact hu
  · obtain ⟨hr, hnd⟩ := @reserveEach_updates F s₀ ev τ detached.length grants
      (List.range kernelHandleMaxEntries) [] (s.setReservation r emptyImportReservation)
      (by simpa using nodup_range) (fun _ h => absurd h not_mem_nil)
    generalize reserveEach τ detached.length grants (List.range kernelHandleMaxEntries) []
      (s.setReservation r emptyImportReservation) = q at hr hnd ⊢
    obtain ⟨status, made, s₁⟩ := q
    cases status <;> try exact hu.trans hr
    dsimp only
    split_ifs
    · exact hu.trans hr
    · exact (hu.trans hr).tail (.reserved s₁.view r _ hnd)

theorem importCheck_spec : ∀ {entries : List (ℕ × ℕ)}
    {detached : List ℕ}, importCheck s τ entries detached = true → ∀ p ∈ entries,
      p.1 < kernelHandleMaxEntries ∧ (s.entry τ p.1).occupied = false ∧
        (s.entry τ p.1).reserved = .importReserved ∧ s.slotFree τ p.1 = false ∧
        p.2 = makeHandle p.1 (s.entry τ p.1).generation
  | [], _, _ => fun _ h => absurd h not_mem_nil
  | _ :: _, [], h => by simp [importCheck] at h
  | (slot, handle) :: entries, d :: detached, h => by
    unfold importCheck at h
    simp only at h
    split_ifs at h with hc
    push Not at hc
    intro p hp
    rcases mem_cons.1 hp with rfl | hp
    · exact ⟨by omega, by simpa using hc.2.1, hc.2.2.1, by simpa using hc.2.2.2.1, hc.2.2.2.2.1⟩
    · exact importCheck_spec h p hp

theorem importEach_updates {τ r : ℕ} {hs : List ℕ} (hev : ev = .call (.importCommit τ r hs)) :
    ∀ (slots detached : List ℕ) (s : HandleState), slots.Nodup →
      (∀ slot ∈ slots, ¬ (s.entry τ slot).holds ∧ s.slotFree τ slot = false) →
      (∀ d e, s.detachedEntryAt d = some e → e.state = .live → s₀.detachedEntryAt d = some e) →
      (∀ h ∈ detached, detachedSlot h ∉ s.pending) →
      HandleUpdates F s₀ ev s.view (importEach F τ slots detached s).2.view
  | [], _, s, _, _, _, _ => .refl
  | _ :: _, [], s, _, _, _, _ => .refl
  | slot :: slots, h :: detached, s, hl, hn, hd, hp => by
    obtain ⟨hsl, hl'⟩ := nodup_cons.1 hl
    unfold importEach
    rcases hf : s.findDetachedEntry h .live with _ | ⟨d, source⟩
    · exact .refl
    obtain ⟨hde, hst, hds, -⟩ := findDetachedEntry_some hf
    obtain ⟨hnh, hfree⟩ := hn slot mem_cons_self
    set e : KernelHandleEntry := { s.entry τ slot with
      object := source.object, retain := source.retain, release := source.release,
      releaseContext := source.releaseContext,
      rights := F source.type source.object source.rights, type := source.type,
      occupied := true, reserved := .none, reference := source.reference } with he
    have hde' : (s.setEntry τ slot e).detachedEntryAt d = some source := hde
    have hv : ((s.setEntry τ slot e).freeDetachedEntry d source).view =
        (s.view.setEntry τ slot e).setDetached d (clearDetachedEntry source.slot
          (kernelGenerationNextMasked source.generation kernelDetachedGenerationMask)) := by
      rw [view_freeDetachedEntry _ hde', view_setEntry]
    dsimp only
    rw [← he]
    refine .trans ?_ (importEach_updates hev slots detached _ hl' ?_ ?_ ?_)
    · rw [hv]
      refine .single (.imported s.view d τ slot r _ hs source e hev hnh hfree hde
        (hd d source hde hst) hst ?_ rfl rfl rfl rfl rfl rfl rfl)
      rw [view_pending, hds]
      exact hp h mem_cons_self
    · intro j hj
      have hjs : j ≠ slot := fun h => hsl (h ▸ hj)
      rw [← view_entry, ← view_free, hv]
      simpa [hjs] using hn j (mem_cons_of_mem _ hj)
    · intro d' e' hd' hst'
      rw [← view_detached, hv] at hd'
      simp only [HandleView.setDetached_at] at hd'
      split_ifs at hd'
      · cases hd'
        simp [clearDetachedEntry] at hst'
      · exact hd d' e' hd' hst'
    · intro h' hh'
      rw [← view_pending, hv]
      exact hp h' (mem_cons_of_mem _ hh')

theorem importCommit_updates {r : ℕ}
    (hev : ev = .call (.importCommit τ r detached)) (hslots : (s.reservations r).slots.Nodup)
    (hp : ∀ h ∈ detached, detachedSlot h ∉ s.pending) :
    HandleUpdates F s ev s.view (kernelHandleImportCommit F s τ r detached).2.view := by
  unfold kernelHandleImportCommit
  simp only
  split_ifs with h1 h2 h3
  · exact .refl
  · exact .refl
  · exact .refl
  · have hc := importCheck_spec (by simpa using h2)
    have hn : ∀ slot ∈ (s.reservations r).slots,
        ¬ (s.entry τ slot).holds ∧ s.slotFree τ slot = false := by
      intro slot hm
      obtain ⟨p, hpm, rfl⟩ := mem_map.1 hm
      obtain ⟨-, ho, hr, hf, -⟩ := hc p hpm
      exact ⟨by simp [KernelHandleEntry.holds, ho, hr], hf⟩
    have hu := @importEach_updates F s ev τ r detached hev (s.reservations r).slots detached s
      hslots hn (fun _ _ h _ => h) hp
    generalize importEach F τ (s.reservations r).slots detached s = q at hu ⊢
    obtain ⟨status, s₁⟩ := q
    cases status <;> try exact hu
    exact hu.tail (.reserved s₁.view r _ nodup_nil)

theorem importCancel_updates (s : HandleState) (τ r : ℕ) :
    HandleUpdates F s₀ ev s.view (kernelHandleImportCancel s τ r).2.view := by
  unfold kernelHandleImportCancel
  simp only
  split_ifs with h1 h2
  · exact .refl
  · exact .refl
  · have hn : ∀ slot ∈ (s.reservations r).slots, ¬ (s.entry τ slot).holds := by
      intro slot hm hh
      refine h2 (any_eq_true.2 ⟨slot, hm, ?_⟩)
      rcases hh with ho | hr
      · simp [ho]
      · simp [hr]
    have hu := @cancelEach_updates F s₀ ev τ (s.reservations r).slots s hn
    generalize cancelEach τ (s.reservations r).slots s = q at hu ⊢
    obtain ⟨status, s₁⟩ := q
    cases status <;> try exact hu
    exact hu.tail (.reserved s₁.view r _ nodup_nil)

theorem liveOnce_spec : ∀ {handles prior : List ℕ},
    liveOnce s prior handles = .ok → (∀ h ∈ prior, ∃ d e, s.findDetachedEntry h .live = some (d, e)) →
      (prior.map detachedSlot).Nodup →
      (∀ h ∈ prior ++ handles, ∃ d e, s.findDetachedEntry h .live = some (d, e)) ∧
        ((prior ++ handles).map detachedSlot).Nodup
  | [], prior, _, hp, hn => by simpa using ⟨hp, hn⟩
  | handle :: handles, prior, h, hp, hn => by
    unfold liveOnce at h
    split_ifs at h with h1 h2
    obtain ⟨⟨d, e⟩, hf⟩ := Option.isSome_iff_exists.1
      (by simpa [Option.isNone_iff_eq_none, Option.isSome_iff_ne_none] using h1)
    have hall : ∀ x ∈ prior ++ [handle], ∃ d e, s.findDetachedEntry x .live = some (d, e) := by
      intro x hx
      rcases mem_append.1 hx with hx | hx
      · exact hp x hx
      · exact ⟨d, e, by rw [mem_singleton.1 hx, hf]⟩
    have hnd : ((prior ++ [handle]).map detachedSlot).Nodup := by
      rw [map_append, nodup_append]
      refine ⟨hn, by simp, ?_⟩
      intro a ha b hb hab
      obtain ⟨x, hx, rfl⟩ := mem_map.1 ha
      obtain rfl : b = detachedSlot handle := by simpa using hb
      -- one slot is live in one generation, so the two handles would be the same
      obtain ⟨d', e', hf'⟩ := hp x hx
      obtain ⟨hd, -, hds, hh⟩ := findDetachedEntry_some hf
      obtain ⟨hd', -, hds', hh'⟩ := findDetachedEntry_some hf'
      obtain rfl : d' = d := by rw [hds, hds', hab]
      obtain rfl : e' = e := by simpa [hd] using hd'.symm
      exact h2 (by rw [hh, ← hh']; exact hx)
    simpa using liveOnce_spec h hall hnd

theorem releaseRest_updates : ∀ (slots : List ℕ) (s : HandleState), slots.Nodup →
    (∀ d ∈ slots, d ∉ s.pending ∧ ∃ e, s.detachedEntryAt d = some e ∧ e.state = .live) →
    HandleUpdates F s₀ ev s.view (releaseRest slots s).view
  | [], s, _, _ => .refl
  | d :: slots, s, hl, h => by
    obtain ⟨hdl, hl'⟩ := nodup_cons.1 hl
    obtain ⟨hp, e, he, hst⟩ := h d mem_cons_self
    unfold releaseRest
    rw [he]
    have hv : ((s.freeDetachedEntry d e).drop e.reference e.grant).view =
        (s.view.setDetached d (clearDetachedEntry e.slot (kernelGenerationNextMasked e.generation
          kernelDetachedGenerationMask))).drop e.reference e.grant := by
      rw [view_drop, view_freeDetachedEntry s he]
    have h1 : HandleUpdates F s₀ ev s.view
        ((s.freeDetachedEntry d e).drop e.reference e.grant).view := by
      rw [hv]
      exact .single (.released s.view d _ e he hst hp)
    refine h1.tail (.interrupted _ (.detachedRelease slots) hl' ?_ ?_)
    · intro d' hd'
      rw [hv]
      exact (h d' (mem_cons_of_mem _ hd')).1
    · intro d' hd'
      obtain ⟨-, e', he', hst'⟩ := h d' (mem_cons_of_mem _ hd')
      refine ⟨e', ?_, hst'⟩
      have hne : d' ≠ d := fun h => hdl (h ▸ hd')
      rw [hv]
      simpa [hne] using he'

theorem detachedRelease_updates (hp : ∀ h ∈ detached, detachedSlot h ∉ s.pending) :
    HandleUpdates F s₀ ev s.view (kernelHandleDetachedRelease s detached).2.view := by
  unfold kernelHandleDetachedRelease
  by_cases h1 : kernelHandleTransferMax < detached.length
  · rw [if_pos h1]
  rw [if_neg h1]
  rcases hr : liveOnce s [] detached <;> try exact .refl
  split_ifs
  · exact .refl
  · obtain ⟨hlive, hnd⟩ := liveOnce_spec hr (fun _ h => absurd h not_mem_nil) nodup_nil
    rw [nil_append] at hlive hnd
    have hrel : ∀ stats, HandleUpdates F s₀ ev s.view
        (releaseRest (detached.map detachedSlot) (s.setStats stats)).view := by
      intro stats
      rw [← view_setStats s stats]
      refine releaseRest_updates _ _ hnd ?_
      intro d hd
      obtain ⟨h, hh, rfl⟩ := mem_map.1 hd
      obtain ⟨d, e, hf⟩ := hlive h hh
      obtain ⟨he, hst, rfl, -⟩ := findDetachedEntry_some hf
      exact ⟨hp h hh, e, he, hst⟩
    exact hrel _

end imports

end Astra
