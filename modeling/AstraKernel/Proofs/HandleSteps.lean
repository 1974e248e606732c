import AstraKernel.Proofs.HandleView

/-!
# Every call is a sequence of updates

One lemma for each loop and each call: what it does to the view is a sequence of updates, from the
checks the code makes on the way.
-/

namespace Astra

open Function HandleState List

variable (F : KernelHandleImportRights)

abbrev HandleUpdates (s : HandleState) (ev : HandleEvent) : HandleView → HandleView → Prop :=
  Relation.ReflTransGen (HandleUpdate F s ev)

variable {F} {s₀ : HandleState} {ev : HandleEvent}

theorem HandleUpdates.of_eq {v v' : HandleView} (h : v' = v) : HandleUpdates F s₀ ev v v' := by
  rw [h]

section tables

section

variable (s : HandleState)

theorem releaseFreeSlot_updates (τ i : ℕ) :
    HandleUpdates F s₀ ev s.view (s.releaseFreeSlot τ i).2.view := by
  rw [view_releaseFreeSlot]
  split_ifs with h
  · exact .refl
  · push Not at h
    exact .single (.freed _ τ i (by simpa using h.1) h.2.1)

theorem view_retireEntry (τ i : ℕ) : (s.retireEntry τ i).view =
    (s.view.setEntry τ i (s.entry τ i).retired).setFree τ i true := by
  unfold retireEntry
  rw [view_flagUnless, view_releaseFreeSlot]
  have hv : (flagUnless (s.setEntry τ i (s.entry τ i).retired).slotRelease).view =
      s.view.setEntry τ i (s.entry τ i).retired := by simp
  have he : (flagUnless (s.setEntry τ i (s.entry τ i).retired).slotRelease).entry τ i =
      (s.entry τ i).retired := by
    rw [← view_entry, hv]
    simp [HandleView.setEntry]
  have hf : (flagUnless (s.setEntry τ i (s.entry τ i).retired).slotRelease).slotFree =
      s.slotFree := by
    rw [← view_free, hv]
    rfl
  unfold KernelHandleEntry.retired at hv he hf
  rw [hv, he, hf]
  split_ifs with h
  · have hfree : s.slotFree τ i = true := by simpa [freeHandleEntry] using h
    have hsame : (fun τ' j => if τ' = τ ∧ j = i then true else s.slotFree τ' j) = s.slotFree := by
      funext τ' j
      split_ifs with hj
      · rw [hj.1, hj.2, hfree]
      · rfl
    simp only [HandleView.setFree, HandleView.setEntry, view_free, hsame]
    rfl
  · rfl

theorem entry_retireEntry (τ i τ' j : ℕ) : (s.retireEntry τ i).entry τ' j =
    if τ' = τ ∧ j = i then (s.entry τ i).retired else s.entry τ' j := by
  rw [← view_entry, view_retireEntry]
  simp

theorem detached_retireEntry (τ i : ℕ) :
    (s.retireEntry τ i).detachedEntryAt = s.detachedEntryAt := by
  rw [← view_detached, view_retireEntry]
  simp

end

variable {rights : HandleRights} {s s' : HandleState} {grant : SlotGrant} {i σ τ : ℕ}

theorem retireAndDrop_updates (h : (s.entry τ i).holds) :
    HandleUpdates F s₀ ev s.view (s.retireAndDrop τ i).view := by
  unfold retireAndDrop
  rw [view_drop, view_retireEntry]
  refine .tail (.single (.retired s.view τ i h)) ?_
  refine .freed _ τ i ?_ ?_ <;> simp [HandleView.setEntry, HandleView.drop,
    KernelHandleEntry.retired, freeHandleEntry]

theorem pushFrame_updates (s : HandleState) {f : ReleaseFrame} (h : f.pending = []) :
    HandleUpdates F s₀ ev s.view (s.pushFrame f).view := by
  rw [view_pushFrame]
  refine .single (.interrupted s.view f ?_ ?_ ?_) <;> simp [h]

theorem closeMark_updates (hev : ev.Marks τ) (s : HandleState) (i : ℕ) :
    HandleUpdates F s₀ ev s.view (closeMark τ s i).view := by
  unfold closeMark
  simp only
  split_ifs with ho hr
  · rw [view_setEntry]
    exact .single (.marked s.view τ i hev ho)
  · exact .refl
  · push Not at hr
    rw [view_flagUnless]
    refine .trans ?_ (releaseFreeSlot_updates _ τ i)
    rw [view_setEntry, view_flagUnless, view_slotRelease]
    refine .single (.idle s.view τ i _ ?_ ?_ ?_ rfl (.inl rfl)) <;>
      simp [KernelHandleEntry.holds, ho, hr]

theorem closeMarks_updates (hev : ev.Marks τ) (l : List ℕ) (s : HandleState) :
    HandleUpdates F s₀ ev s.view (l.foldl (closeMark τ) s).view := by
  induction l generalizing s with
  | nil => exact .refl
  | cons i l ih => exact (closeMark_updates hev s i).trans (ih _)

theorem closeAllRest_updates (τ : ℕ) (l : List ℕ) (s : HandleState) :
    HandleUpdates F s₀ ev s.view (closeAllRest τ l s).view := by
  induction l generalizing s with
  | nil => exact .refl
  | cons i l ih =>
    unfold closeAllRest
    simp only
    split_ifs with hr
    · exact ih s
    · push Not at hr
      have hd : HandleUpdates F s₀ ev s.view (s.retireAndDrop τ i).view :=
        retireAndDrop_updates (.inr hr)
      split
      · exact hd.trans (ih _)
      · exact hd.trans (pushFrame_updates _ rfl)

theorem closeAll_updates (s : HandleState) (hev : ev.Marks τ) :
    HandleUpdates F s₀ ev s.view (kernelHandleCloseAll s τ).view :=
  (closeMarks_updates hev _ s).trans (closeAllRest_updates τ _ _)

theorem closeTypeRest_updates (τ : ℕ) (type : KernelObjectType) (l : List ℕ) (s : HandleState) :
    HandleUpdates F s₀ ev s.view (closeTypeRest τ type l s).view := by
  induction l generalizing s with
  | nil => exact .refl
  | cons slot l ih =>
    unfold closeTypeRest
    simp only
    split_ifs with hr
    · exact ih s
    · split
      · exact .of_eq (view_noting s _)
      · rename_i i hf
        have hd : HandleUpdates F s₀ ev s.view (s.retireAndDrop τ i).view :=
          retireAndDrop_updates (.inl (findEntry_ok hf).2.1)
        split
        · exact hd.trans (ih _)
        · exact hd.trans (pushFrame_updates _ rfl)

theorem closeType_updates (s : HandleState) (τ : ℕ) (type : KernelObjectType) :
    HandleUpdates F s₀ ev s.view (kernelHandleCloseType s τ type).view := by
  unfold kernelHandleCloseType
  split_ifs
  · exact .refl
  · exact closeTypeRest_updates τ type _ s

theorem close_updates (s : HandleState) (τ handle : ℕ) :
    HandleUpdates F s₀ ev s.view (kernelHandleClose s τ handle).2.view := by
  unfold kernelHandleClose
  split
  · exact .of_eq (view_noting s _)
  · rename_i i hf
    have hd : HandleUpdates F s₀ ev s.view (s.retireAndDrop τ i).view :=
      retireAndDrop_updates (.inl (findEntry_ok hf).2.1)
    split
    · exact hd
    · exact hd.trans (pushFrame_updates _ rfl)

theorem claimFreeSlot_none (h : s.claimFreeSlot τ = (none, s')) : s'.view = s.view := by
  unfold claimFreeSlot at h
  split at h
  · obtain rfl : s = s' := by simpa using h
    rfl
  · split_ifs at h
    · obtain rfl : s.flag = s' := by simpa using h
      rfl
    · simp at h

theorem claimFreeSlot_some (h : s.claimFreeSlot τ = (some i, s')) :
    s' = s.setSlotFree τ i false ∧ i < kernelHandleMaxEntries ∧ (s.entry τ i).occupied = false ∧
      (s.entry τ i).reserved = .none := by
  unfold claimFreeSlot at h
  split at h
  · simp at h
  · rename_i j hj
    split_ifs at h with hc
    · simp at h
    · push Not at hc
      obtain ⟨rfl, rfl⟩ : j = i ∧ s.setSlotFree τ j false = s' := by simpa using h
      exact ⟨rfl, mem_range.1 (mem_of_find?_eq_some hj), by simpa using hc.1, hc.2⟩

theorem setSlotFree_updates (s : HandleState) (τ i : ℕ) :
    HandleUpdates F s₀ ev s.view (s.setSlotFree τ i false).view := by
  rw [view_setSlotFree]
  exact .single (.claimed s.view τ i)

theorem unclaim_updates {e : KernelHandleEntry}
    (hn : ¬ (s.entry τ i).holds) (he : e.occupied = false) (hr : e.reserved = .none)
    (ht : e.retirements = (s.entry τ i).retirements)
    (hg : e.generation = normalGeneration (s.entry τ i).generation kernelHandleGenerationMask) :
    HandleUpdates F s₀ ev s.view (flagUnless ((s.setEntry τ i e).releaseFreeSlot τ i)).view := by
  rw [view_flagUnless]
  refine .trans ?_ (releaseFreeSlot_updates _ τ i)
  rw [view_setEntry]
  refine .single (.idle s.view τ i e hn ?_ ?_ ht (.inr hg))
  · simp [KernelHandleEntry.holds, he, hr]
  · exact fun h => absurd hr h

theorem install_updates {object : ℕ} {type : KernelObjectType}
    {retain release : Option ℕ} {context : ℕ}
    (hev : ev.Installs τ object rights)
    (hok : (install s τ type rights object retain release context grant).1.1 = .ok →
      ev.Succeeds F s₀) : HandleUpdates F s₀ ev s.view
      (install s τ type rights object retain release context grant).2.view := by
  unfold install at hok ⊢
  by_cases h1 : object = 0 ∨ type = .none ∨ rights = 0
  · rw [if_pos h1]
  by_cases h2 : grant.attempt = false
  · rw [if_neg h1, if_pos h2]
  rw [if_neg h1, if_neg h2] at hok ⊢
  rcases hc : s.claimFreeSlot τ with ⟨_ | i, s'⟩
  · exact .of_eq (claimFreeSlot_none hc)
  · obtain ⟨rfl, -, ho, hr⟩ := claimFreeSlot_some hc
    rw [hc] at hok
    refine .trans (setSlotFree_updates s τ i) ?_
    have hn : ¬ ((s.setSlotFree τ i false).entry τ i).holds := by
      rw [entry_setSlotFree]
      simp [KernelHandleEntry.holds, ho, hr]
    have hf : (s.setSlotFree τ i false).slotFree τ i = false := by
      simp [slotFree_setSlotFree]
    split_ifs at hok ⊢
    · rw [view_slotCommit, view_acquire, view_setEntry]
      exact .single (.installed _ τ i _ hev (hok rfl) hn hf rfl rfl rfl rfl rfl)
    · exact unclaim_updates hn rfl rfl rfl rfl

theorem duplicateInto_updates {source : ℕ} (hev : ev.Duplicates σ τ rights) :
    HandleUpdates F s ev s.view (kernelHandleDuplicateInto s σ source rights τ grant).2.view := by
  unfold kernelHandleDuplicateInto
  by_cases h0 : rights = 0
  · rw [if_pos h0]
  rw [if_neg h0]
  rcases hj : findEntry s σ source with status | j
  · exact .of_eq (view_noting s _)
  simp only
  by_cases h1 : (s.entry σ j).rights &&& handleRightTransfer = 0 ∨
      rights &&& ~~~(s.entry σ j).rights ≠ 0 ∨ (s.entry σ j).retain = none
  · rw [if_pos h1]
  by_cases h2 : grant.attempt = false
  · rw [if_neg h1, if_pos h2]
  rw [if_neg h1, if_neg h2]
  push Not at h1
  rcases hc : s.claimFreeSlot τ with ⟨_ | i, s'⟩
  · exact .of_eq (claimFreeSlot_none hc)
  obtain ⟨rfl, -, ho, hr⟩ := claimFreeSlot_some hc
  refine .trans (setSlotFree_updates s τ i) ?_
  have he : (s.setSlotFree τ i false).entry = s.entry := entry_setSlotFree s τ i false
  have hn : ¬ ((s.setSlotFree τ i false).entry τ i).holds := by
    rw [he]
    simp [KernelHandleEntry.holds, ho, hr]
  have hf : (s.setSlotFree τ i false).slotFree τ i = false := by
    simp [slotFree_setSlotFree]
  simp only
  split_ifs
  · rw [view_flagUnless]
    exact releaseFreeSlot_updates _ τ i
  · rw [view_slotCommit, view_acquire, view_setEntry]
    refine .single (.copied _ σ j τ i _ hev ?_ ?_ ?_ ?_ ?_ hn hf rfl rfl rfl rfl rfl)
    · simp
    · simpa using (findEntry_ok hj).2.1
    · simpa using h1.1
    · simpa using h1.2.1
    · simp
  · -- the reference retained is given back before anything else sees it
    have hl : HandleUpdates F s ev (s.setSlotFree τ i false).view
        ((s.setSlotFree τ i false).lose (s.entry σ j).grant).view := .single (.lost _ _)
    have hu := hl.trans (unclaim_updates (s := (s.setSlotFree τ i false).lose (s.entry σ j).grant)
      (e := { s.entry σ j with
        rights := rights, occupied := false, reserved := .none,
        generation := normalGeneration ((s.setSlotFree τ i false).entry τ i).generation
          kernelHandleGenerationMask,
        reference := (s.setSlotFree τ i false).acquired.length,
        retirements := ((s.setSlotFree τ i false).entry τ i).retirements })
      hn rfl rfl rfl rfl)
    split
    · exact hu
    · exact hu.trans (pushFrame_updates _ rfl)

section

variable (s)

theorem setContext_updates (τ handle : ℕ) (type : KernelObjectType)
    (context : ℕ) : HandleUpdates F s₀ ev s.view
      (kernelHandleSetContext s τ handle type context).2.view := by
  unfold kernelHandleSetContext
  rcases hj : findEntry s τ handle with status | i
  · exact .of_eq (view_noting s _)
  simp only
  split_ifs
  · exact .refl
  · rw [view_setEntry]
    exact .single (.context s.view τ i context (findEntry_ok hj).2.1)

theorem view_setOwner (τ owner processId : ℕ) :
    (kernelHandleTableSetOwner s τ owner processId).2.view = s.view := by
  unfold kernelHandleTableSetOwner
  split_ifs
  · rfl
  · have he : ∀ t : KernelHandleTable, t.entries = (s.tables τ).entries →
        t.freeSlots = (s.tables τ).freeSlots →
        HandleState.view { s with tables := update s.tables τ t } = s.view := by
      intro t ht hf
      have h1 : HandleState.entry { s with tables := update s.tables τ t } = s.entry := by
        funext τ' j
        by_cases hτ : τ' = τ
        · subst hτ
          simp [HandleState.entry, ht]
        · simp [HandleState.entry, hτ]
      have h2 : HandleState.slotFree { s with tables := update s.tables τ t } =
          s.slotFree := by
        funext τ' j
        by_cases hτ : τ' = τ
        · subst hτ
          simp [HandleState.slotFree, hf]
        · simp [HandleState.slotFree, hτ]
      simp only [HandleState.view, h1, h2]
      rfl
    exact he _ rfl rfl

theorem view_lookup (τ handle : ℕ) (type : KernelObjectType)
    (rights : HandleRights) : (kernelHandleLookup s τ handle type rights).2.view = s.view := by
  unfold kernelHandleLookup
  rcases findEntry s τ handle with status | i
  · exact view_noting s _
  · simp only
    split_ifs <;> rfl

theorem view_lookupContext (τ handle : ℕ) (type : KernelObjectType) (rights : HandleRights) :
    (kernelHandleLookupContext s τ handle type rights).2.view = s.view := by
  unfold kernelHandleLookupContext
  rcases findEntry s τ handle with status | i
  · exact view_noting s _
  · simp only
    split_ifs <;> rfl

theorem view_lookupAny (τ handle : ℕ) (rights : HandleRights) :
    (kernelHandleLookupAny s τ handle rights).2.view = s.view := by
  unfold kernelHandleLookupAny
  rcases findEntry s τ handle with status | i
  · exact view_noting s _
  · simp only
    split_ifs <;> rfl

end

theorem cloneEntries_updates {grants : ℕ → SlotGrant} (hev : ev = .call (.cloneTable σ τ grants)) :
    ∀ (l : List ℕ) (s : HandleState), l.Nodup → (∀ i ∈ l, s.entry τ i = freeHandleEntry) →
      (∀ i ∈ l, s.entry σ i = s₀.entry σ i) →
      HandleUpdates F s₀ ev s.view (cloneEntries σ τ grants l s).2.view
  | [], s, _, _, _ => .refl
  | i :: l, s, hl, hd, hs => by
    obtain ⟨hil, hl'⟩ := nodup_cons.1 hl
    have hdi := hd i mem_cons_self
    have hsi := hs i mem_cons_self
    -- what is written at slot `i` leaves the slots that are still to come as they are
    have hnext : ∀ s' : HandleState, (∀ τ' j, j ≠ i → s'.entry τ' j = s.entry τ' j) →
        HandleUpdates F s₀ ev s.view s'.view →
        HandleUpdates F s₀ ev s.view (cloneEntries σ τ grants l s').2.view := by
      intro s' he hu
      refine hu.trans (cloneEntries_updates hev l s' hl' ?_ ?_) <;> intro j hj <;>
        rw [he _ _ (fun h => hil (h ▸ hj))]
      · exact hd j (mem_cons_of_mem _ hj)
      · exact hs j (mem_cons_of_mem _ hj)
    have hother : ∀ e τ' j, j ≠ i → (s.setEntry τ i e).entry τ' j = s.entry τ' j := by
      intro e τ' j hj
      rw [entry_setEntry, if_neg (fun h => hj h.2)]
    have hm : ev.Marks τ := .inr (.inl ⟨σ, grants, hev⟩)
    unfold cloneEntries
    simp only
    split_ifs with h1 h2 h3 h4 h5
    · refine hnext _ (hother _) ?_
      rw [view_setEntry, hdi]
      exact .single (.adopted s.view σ τ i grants _ hev hdi rfl rfl (.inl ⟨rfl, rfl⟩))
    · refine hnext _ (hother _) ?_
      rw [view_setEntry, hdi]
      exact .single (.adopted s.view σ τ i grants _ hev hdi rfl rfl (.inr ⟨rfl, rfl⟩))
    · dsimp only
      exact closeAll_updates s hm
    · dsimp only
      refine .trans ?_ (closeAll_updates _ hm)
      rw [view_setSlotFree]
      refine .tail (setSlotFree_updates s τ i) (.freed _ τ i ?_ ?_) <;>
        simp [hdi, freeHandleEntry]
    · refine hnext _ (fun τ' j hj => ?_) ?_
      · show ((s.setSlotFree τ i false).setEntry τ i _).entry τ' j = _
        rw [entry_setEntry, if_neg (fun h => hj h.2), entry_setSlotFree]
      · refine .tail (setSlotFree_updates s τ i) ?_
        rw [view_slotCommit, view_acquire, view_setEntry]
        have ho : (s.entry σ i).occupied = true := by simpa using h1
        exact .cloned _ σ τ i grants _ hev (by simpa using hdi) (by simp) (by simp) hsi.symm ho
    · set e : KernelHandleEntry := { s.entry σ i with
        occupied := false, reserved := .none,
        reference := (s.setSlotFree τ i false).acquired.length } with he
      set s' := (((s.setSlotFree τ i false).setEntry τ i e).setSlotFree τ i true).lose
        (s.entry σ i).grant with hs'
      have hu : HandleUpdates F s₀ ev s.view s'.view := by
        have h1 : HandleUpdates F s₀ ev s.view (s.view.setFree τ i false) :=
          .single (.claimed s.view τ i)
        have h2 := h1.tail (.lost _ (s.entry σ i).grant)
        have h3 := h2.tail (.adopted _ σ τ i grants e hev (by simpa using hdi) rfl rfl
          (.inl ⟨by simp [he], by simp [he]⟩))
        have h4 := h3.tail (.freed _ τ i (by simp [he]) (by simp [he]))
        have hv : s'.view = ((((s.view.setFree τ i false).acquire (s.entry σ i).grant).drop
            s.acquired.length (s.entry σ i).grant).setEntry τ i e).setFree τ i true := by
          rw [hs', view_lose, view_setSlotFree, view_setEntry, view_setSlotFree]
          rfl
        rw [hv]
        exact h4
      have hc : HandleUpdates F s₀ ev s.view (kernelHandleCloseAll s' τ).view :=
        hu.trans (closeAll_updates s' hm)
      split <;> dsimp only
      · exact hc
      · exact hu.trans (pushFrame_updates _ rfl)

end tables

end Astra
