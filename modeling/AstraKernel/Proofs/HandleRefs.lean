import AstraKernel.Proofs.HandleRuns

/-!
# Every reference has one holder until it is released

The holders are the table entries that are occupied, or that a close of the whole table has yet to
come to, and the live detached entries. A reserved one holds nothing.
-/

namespace Astra

open HandleState List

inductive HandleHolder
  | table (τ i : ℕ)
  | detached (d : ℕ)

def HandleView.hold (v : HandleView) : HandleHolder → Option (ℕ × HandleGrant)
  | .table τ i =>
    if (v.entry τ i).holds then some ((v.entry τ i).reference, (v.entry τ i).grant) else none
  | .detached d =>
    (v.detached d).bind fun e => if e.state = .live then some (e.reference, e.grant) else none

variable {g : HandleGrant} {s : HandleState} {e : KernelHandleEntry} {evs : List HandleEvent}
  {i t τ : ℕ}

theorem hold_table {v : HandleView} (h : (v.entry τ i).holds) :
    v.hold (.table τ i) = some ((v.entry τ i).reference, (v.entry τ i).grant) := if_pos h

theorem hold_table_some {v : HandleView} (h : v.hold (.table τ i) = some (t, g)) :
    (v.entry τ i).holds ∧ (v.entry τ i).reference = t ∧ (v.entry τ i).grant = g := by
  by_cases hh : (v.entry τ i).holds
  · rw [hold_table hh] at h
    obtain ⟨h1, h2⟩ := Prod.mk.injEq .. ▸ Option.some.inj h
    exact ⟨hh, h1, h2⟩
  · rw [HandleView.hold, if_neg hh] at h
    simp at h

section hold

variable (v : HandleView)

@[simp] theorem hold_setFree (τ i : ℕ) (b : Bool) : (v.setFree τ i b).hold = v.hold := rfl
@[simp] theorem hold_acquire (g : HandleGrant) : (v.acquire g).hold = v.hold := rfl
@[simp] theorem hold_drop (t : ℕ) (g : HandleGrant) : (v.drop t g).hold = v.hold := rfl

theorem hold_setEntry_self (τ i : ℕ) (e : KernelHandleEntry) : (v.setEntry τ i e).hold (.table τ i) =
    if e.holds then some (e.reference, e.grant) else none := by
  simp [HandleView.hold]

variable {x : HandleHolder}

theorem hold_setEntry_ne (τ i : ℕ) (e : KernelHandleEntry)
    (h : x ≠ .table τ i) : (v.setEntry τ i e).hold x = v.hold x := by
  rcases x with ⟨τ', j⟩ | d
  · have hj : ¬ (τ' = τ ∧ j = i) := fun hj => h (by rw [hj.1, hj.2])
    simp [HandleView.hold, hj]
  · rfl

theorem hold_setDetached_self (d : ℕ) (e : KernelDetachedEntry) :
    (v.setDetached d e).hold (.detached d) =
      if e.state = .live then some (e.reference, e.grant) else none := by
  simp [HandleView.hold]

theorem hold_setDetached_ne (d : ℕ) (e : KernelDetachedEntry)
    (h : x ≠ .detached d) : (v.setDetached d e).hold x = v.hold x := by
  rcases x with ⟨τ', j⟩ | d'
  · rfl
  · have hd : d' ≠ d := fun hd => h (by rw [hd])
    simp [HandleView.hold, hd]

theorem hold_setEntry_eq {τ i : ℕ} {e : KernelHandleEntry}
    (h : (if e.holds then some (e.reference, e.grant) else none) = v.hold (.table τ i))
    (x : HandleHolder) : (v.setEntry τ i e).hold x = v.hold x := by
  by_cases hx : x = .table τ i
  · rw [hx, hold_setEntry_self, h]
  · exact hold_setEntry_ne v τ i e hx

theorem hold_setDetached_eq {d : ℕ} {e e' : KernelDetachedEntry} (hd : v.detached d = some e')
    (h : e.state ≠ .live) (h' : e'.state ≠ .live) (x : HandleHolder) :
    (v.setDetached d e).hold x = v.hold x := by
  by_cases hx : x = .detached d
  · rw [hx, hold_setDetached_self, if_neg h]
    simp [HandleView.hold, hd, h']
  · exact hold_setDetached_ne v d e hx

end hold

def HandleView.Counted (v : HandleView) : Prop := Accounted v.acquired v.hold v.dropped

variable {F : KernelHandleImportRights} {s₀ : HandleState} {ev : HandleEvent}

theorem Counted.install {v : HandleView} (h : v.Counted)
    (hn : ¬ (v.entry τ i).holds) (ho : e.occupied = true) (hr : e.reference = v.acquired.length) :
    ((v.setEntry τ i e).acquire e.grant).Counted := by
  refine Accounted.acquire h (x := .table τ i) (by simp [HandleView.hold, hn]) ?_ ?_
  · rw [hold_acquire, hold_setEntry_self, if_pos (.inl ho), hr]
  · intro y hy
    rw [hold_acquire, hold_setEntry_ne _ _ _ _ hy]

theorem counted_update {v v' : HandleView} (h : v.Counted) (hu : HandleUpdate F s₀ ev v v') :
    v'.Counted := by
  cases hu with
  | claimed τ i => exact h
  | freed τ i => exact h
  | idle τ i e hn hn' =>
    exact Accounted.congr h (hold_setEntry_eq v (by simp [HandleView.hold, hn, hn']))
  | adopted σ τ i grants e hev hfr ho hr =>
    refine Accounted.congr h (hold_setEntry_eq v ?_)
    simp [HandleView.hold, hfr, KernelHandleEntry.holds, freeHandleEntry, ho, hr]
  | installed τ i e hev hok hn hf ho hres href => exact Counted.install h hn ho href
  | copied σ j τ i e hev hs hso htr hsub hobj hn hf ho hres href =>
    exact Counted.install h hn ho href
  | cloned σ τ i grants e hev hfr =>
    refine Counted.install h ?_ rfl rfl
    simp [hfr, KernelHandleEntry.holds, freeHandleEntry]
  | lost g => exact Accounted.lose h g
  | marked τ i hev ho =>
    refine Accounted.congr h (hold_setEntry_eq v ?_)
    simp [HandleView.hold, KernelHandleEntry.holds, ho, KernelHandleEntry.grant]
  | retired τ i hh =>
    refine Accounted.drop h (x := .table τ i) (by simp [HandleView.hold, hh]) ?_ ?_
    · rw [hold_drop, hold_setEntry_self]
      simp [KernelHandleEntry.holds, KernelHandleEntry.retired, freeHandleEntry]
    · intro y hy
      rw [hold_drop, hold_setEntry_ne _ _ _ _ hy]
  | context τ i c ho =>
    refine Accounted.congr h (hold_setEntry_eq v ?_)
    simp [HandleView.hold, KernelHandleEntry.holds, ho, KernelHandleEntry.grant]
  | exported τ i d e ho hd hst hg =>
    refine Accounted.move h (x := .table τ i) (y := .detached d) (t := (v.entry τ i).reference)
      (g := (v.entry τ i).grant)
      (by simp [HandleView.hold, KernelHandleEntry.holds, ho])
      (by simp [HandleView.hold, hd, hst]) ?_ ?_ ?_
    · rw [hold_setDetached_ne _ _ _ (by simp), hold_setEntry_self]
      simp [KernelHandleEntry.holds, KernelHandleEntry.retired, freeHandleEntry]
    · rw [hold_setDetached_self, ← hg]
      simp [KernelDetachedEntry.grant]
    · intro z hz hz'
      rw [hold_setDetached_ne _ _ _ hz', hold_setEntry_ne _ _ _ _ hz]
  | imported d τ i r g hs e e' hev hn hf hd hd' hst hp hg href ho =>
    refine Accounted.move h (x := .detached d) (y := .table τ i)
      (by simp only [HandleView.hold, hd, hst, Option.bind_some, if_true]; rfl)
      (by simp [HandleView.hold, hn]) ?_ ?_ ?_
    · rw [hold_setDetached_self]
      simp [clearDetachedEntry]
    · rw [hold_setDetached_ne _ _ _ (by simp), hold_setEntry_self, if_pos (.inl ho), hg, href]
    · intro z hz hz'
      rw [hold_setDetached_ne _ _ _ hz, hold_setEntry_ne _ _ _ _ hz']
  | backed detached hkeep hnew =>
    refine Accounted.congr h fun x => ?_
    rcases x with ⟨τ, i⟩ | d
    · rfl
    · rcases hd : v.detached d with _ | e
      · rcases hd' : detached d with _ | e
        · simp [HandleView.hold, hd, hd']
        · simp [HandleView.hold, hd, hd', hnew d e hd hd']
      · simp [HandleView.hold, hd, hkeep d e hd]
  | prepared τ i d e e' ho hs htr hd hst hst' =>
    exact Accounted.congr h (hold_setDetached_eq v hd (by simp [hst']) (by simp [hst]))
  | narrowed d e mask hd hst =>
    exact Accounted.congr h (hold_setDetached_eq v hd (by simp [hst]) (by simp [hst]))
  | unprepared d g e hd hst =>
    exact Accounted.congr h (hold_setDetached_eq v hd (by simp [clearDetachedEntry])
      (by simp [hst]))
  | released d g e hd hst hp =>
    refine Accounted.drop h (x := .detached d) (by simp [HandleView.hold, hd, hst]) ?_ ?_
    · rw [hold_drop, hold_setDetached_self]
      simp [clearDetachedEntry]
    · intro y hy
      rw [hold_drop, hold_setDetached_ne _ _ _ hy]
  | interrupted f => exact h
  | returned f fs => exact h
  | reserved r reservation => exact h

theorem counted_updates {v v' : HandleView} (h : v.Counted) (hu : HandleUpdates F s₀ ev v v') :
    v'.Counted := by
  induction hu with
  | refl => exact h
  | tail _ hu ih => exact counted_update ih hu

theorem counted_init : kernelHandleTransferPoolInit.view.Counted := by
  refine Accounted.congr Accounted.nil fun x => ?_
  rcases x with ⟨τ, i⟩ | d
  · rfl
  · simp [HandleView.hold, kernelHandleTransferPoolInit, detachedEntryAt]

theorem run_counted (h : HandleRun F evs) : (handlesAfter F evs).view.Counted := by
  have hs : HandleSound (handlesAfter F evs).view ∧ (handlesAfter F evs).view.Counted :=
    HandleState.run_induction (I := fun s => HandleSound s.view ∧ s.view.Counted) F
      (fun s ev hs ha => ⟨step_handleSound hs.1 ha, counted_updates hs.2 (step_updates hs.1 ha)⟩)
      ⟨handleSound_init, counted_init⟩ h
  exact hs.2

def HandleView.Covered (v : HandleView) : Prop :=
  ∀ τ i, (v.entry τ i).reserved = .closing →
    ∃ rest, ReleaseFrame.closeAll τ rest ∈ v.frames ∧ i ∈ rest

theorem Covered.setEntry {v : HandleView} (h : v.Covered)
    (he : e.reserved = .closing → (v.entry τ i).reserved = .closing) :
    (v.setEntry τ i e).Covered := by
  intro τ' j hj
  rw [HandleView.setEntry_entry] at hj
  split_ifs at hj with hij
  · rw [hij.1, hij.2]
    exact h τ i (he hj)
  · exact h τ' j hj

theorem covered_update {v v' : HandleView} (hev : ∀ τ, ¬ ev.Marks τ) (h : v.Covered)
    (hu : HandleUpdate F s₀ ev v v') : v'.Covered := by
  cases hu with
  | claimed τ i => exact h
  | freed τ i => exact h
  | idle τ i e hn hn' => exact Covered.setEntry h fun hr => absurd (.inr hr) hn'
  | adopted σ τ i grants e hev hfr ho hr => exact Covered.setEntry h fun hr' => by simp [hr] at hr'
  | installed τ i e hev hok hn hf ho hres => exact Covered.setEntry h fun hr => by simp [hres] at hr
  | copied σ j τ i e hev hs hso htr hsub hobj hn hf ho hres =>
    exact Covered.setEntry h fun hr => by simp [hres] at hr
  | cloned σ τ i grants e hev hfr => exact Covered.setEntry h fun hr => by simp at hr
  | lost g => exact h
  | marked τ i hm => exact absurd hm (hev τ)
  | retired τ i =>
    exact Covered.setEntry h fun hr => by simp [KernelHandleEntry.retired, freeHandleEntry] at hr
  | context τ i c ho => exact Covered.setEntry h id
  | exported τ i d e =>
    exact Covered.setEntry h fun hr => by simp [KernelHandleEntry.retired, freeHandleEntry] at hr
  | imported d τ i r g hs e e' hev hn hf hd hd' hst hp hg href ho hres =>
    exact Covered.setEntry h fun hr => by simp [hres] at hr
  | backed detached => exact h
  | prepared τ i d e e' => exact h
  | narrowed d e mask => exact h
  | unprepared d g e => exact h
  | released d g e => exact h
  | interrupted f =>
    intro τ i hr
    obtain ⟨rest, hf, hi⟩ := h τ i hr
    exact ⟨rest, mem_cons_of_mem _ hf, hi⟩
  | returned f fs hret => exact absurd (.inr (.inr hret)) (hev 0)
  | reserved r reservation => exact h

theorem covered_updates {v v' : HandleView} (hev : ∀ τ, ¬ ev.Marks τ) (h : v.Covered)
    (hu : HandleUpdates F s₀ ev v v') : v'.Covered := by
  induction hu with
  | refl => exact h
  | tail _ hu ih => exact covered_update hev ih hu

theorem closeAllRest_closing (τ : ℕ) : ∀ (l : List ℕ) (s : HandleState), ∃ fs,
    (closeAllRest τ l s).frames = fs ++ s.frames ∧
      ∀ τ' i, ((closeAllRest τ l s).entry τ' i).reserved = .closing →
        (s.entry τ' i).reserved = .closing ∧
          (τ' = τ → i ∈ l → ∃ rest, ReleaseFrame.closeAll τ rest ∈ fs ∧ i ∈ rest)
  | [], s => ⟨[], rfl, fun τ' i h => ⟨h, fun _ hi => absurd hi not_mem_nil⟩⟩
  | j :: l, s => by
    unfold closeAllRest
    by_cases hj : (s.entry τ j).reserved = .closing
    · rw [if_neg (by simpa using hj)]
      -- the entry that the loop is at is given up, so no mark is left on it
      have he : ∀ τ' i, ((s.retireAndDrop τ j).entry τ' i).reserved = .closing →
          (s.entry τ' i).reserved = .closing ∧ ¬ (τ' = τ ∧ i = j) := by
        intro τ' i h
        rw [show (s.retireAndDrop τ j).entry = (s.retireEntry τ j).entry from rfl,
          entry_retireEntry] at h
        split_ifs at h with hij
        · simp [KernelHandleEntry.retired, freeHandleEntry] at h
        · exact ⟨h, hij⟩
      have hfr : (s.retireAndDrop τ j).frames = s.frames := by
        rw [show (s.retireAndDrop τ j).frames = (s.retireEntry τ j).frames from rfl, ← view_frames,
          view_retireEntry]
        rfl
      rcases (s.entry τ j).release with _ | f
      · obtain ⟨fs, hf, hc⟩ := closeAllRest_closing τ l (s.retireAndDrop τ j)
        refine ⟨fs, hf.trans (by rw [hfr]), fun τ' i h => ?_⟩
        obtain ⟨h1, h2⟩ := hc τ' i h
        obtain ⟨h3, h4⟩ := he τ' i h1
        refine ⟨h3, fun hτ hi => h2 hτ ?_⟩
        exact (mem_cons.1 hi).resolve_left fun hij => h4 ⟨hτ, hij⟩
      · refine ⟨[.closeAll τ l], by simp [pushFrame, hfr], fun τ' i h => ?_⟩
        obtain ⟨h3, h4⟩ := he τ' i h
        refine ⟨h3, fun hτ hi => ⟨l, mem_singleton.2 rfl, ?_⟩⟩
        exact (mem_cons.1 hi).resolve_left fun hij => h4 ⟨hτ, hij⟩
    · rw [if_pos hj]
      obtain ⟨fs, hf, hc⟩ := closeAllRest_closing τ l s
      refine ⟨fs, hf, fun τ' i h => ⟨(hc τ' i h).1, fun hτ hi => ?_⟩⟩
      rcases mem_cons.1 hi with rfl | hi
      · exact absurd (hτ ▸ (hc τ' i h).1) hj
      · exact (hc τ' i h).2 hτ hi

theorem closeMarks_closing (τ : ℕ) : ∀ (l : List ℕ) (s : HandleState),
    (l.foldl (closeMark τ) s).frames = s.frames ∧
      ∀ τ' i, ((l.foldl (closeMark τ) s).entry τ' i).reserved = .closing →
        (s.entry τ' i).reserved = .closing ∨ τ' = τ ∧ i ∈ l
  | [], s => ⟨rfl, fun τ' i h => .inl h⟩
  | j :: l, s => by
    have hmark : (closeMark τ s j).frames = s.frames ∧
        ∀ τ' i, ((closeMark τ s j).entry τ' i).reserved = .closing →
          (s.entry τ' i).reserved = .closing ∨ τ' = τ ∧ i = j := by
      unfold closeMark
      dsimp only
      split_ifs with h1 h2
      · refine ⟨rfl, fun τ' i h => ?_⟩
        rw [entry_setEntry] at h
        split_ifs at h with hij
        · exact .inr hij
        · exact .inl h
      · exact ⟨rfl, fun τ' i h => .inl h⟩
      · refine ⟨?_, fun τ' i h => ?_⟩
        · rw [← view_frames, view_flagUnless, view_releaseFreeSlot]
          split_ifs
          · rw [view_setEntry, view_flagUnless, view_slotRelease]
            rfl
          · rw [view_setEntry, view_flagUnless, view_slotRelease]
            rfl
        · have he : (flagUnless s.slotRelease).entry = s.entry :=
            congrArg HandleView.entry (by simp : (flagUnless s.slotRelease).view = s.view)
          rw [← view_entry, view_flagUnless, view_entry, entry_releaseFreeSlot, entry_setEntry,
            he] at h
          split_ifs at h with hij
          exact .inl h
    obtain ⟨hf, hc⟩ := closeMarks_closing τ l (closeMark τ s j)
    refine ⟨hf.trans hmark.1, fun τ' i h => ?_⟩
    rcases hc τ' i h with h | ⟨hτ, hi⟩
    · rcases hmark.2 τ' i h with h | ⟨hτ, hi⟩
      · exact .inl h
      · exact .inr ⟨hτ, hi ▸ mem_cons_self⟩
    · exact .inr ⟨hτ, mem_cons_of_mem _ hi⟩

theorem covered_closeAllRest {l : List ℕ}
    (h : ∀ τ' i, (s.entry τ' i).reserved = .closing → ¬ (τ' = τ ∧ i ∈ l) →
      ∃ rest, ReleaseFrame.closeAll τ' rest ∈ s.frames ∧ i ∈ rest) :
    (closeAllRest τ l s).view.Covered := by
  obtain ⟨fs, hf, hc⟩ := closeAllRest_closing τ l s
  intro τ' i hr
  obtain ⟨h1, h2⟩ := hc τ' i hr
  rw [view_frames, hf]
  by_cases hi : τ' = τ ∧ i ∈ l
  · obtain ⟨rest, hm, hir⟩ := h2 hi.1 hi.2
    exact ⟨rest, hi.1 ▸ mem_append_left _ hm, hir⟩
  · obtain ⟨rest, hm, hir⟩ := h τ' i h1 hi
    exact ⟨rest, mem_append_right _ hm, hir⟩

theorem covered_closeAll (h : s.view.Covered) : (kernelHandleCloseAll s τ).view.Covered := by
  obtain ⟨hf, hc⟩ := closeMarks_closing τ (List.range kernelHandleMaxEntries) s
  refine covered_closeAllRest fun τ' i hr hi => ?_
  rw [hf]
  exact h τ' i ((hc τ' i hr).resolve_right hi)

theorem covered_cloneEntries {σ : ℕ} {grants : ℕ → SlotGrant} : ∀ (l : List ℕ) (s : HandleState),
    s.view.Covered → (cloneEntries σ τ grants l s).2.view.Covered
  | [], s, h => h
  | i :: l, s, h => by
    have hset : ∀ s' : HandleState, ∀ e : KernelHandleEntry, s'.view.Covered →
        (e.reserved = .closing → (s'.entry τ i).reserved = .closing) →
        (s'.setEntry τ i e).view.Covered := by
      intro s' e hs' he
      rw [view_setEntry]
      exact Covered.setEntry hs' he
    have hfree : ∀ s' : HandleState, ∀ b, s'.view.Covered → (s'.setSlotFree τ i b).view.Covered := by
      intro s' b hs'
      rw [view_setSlotFree]
      exact hs'
    unfold cloneEntries
    dsimp only
    split_ifs
    · exact covered_cloneEntries l _ (hset s _ h id)
    · exact covered_cloneEntries l _ (hset s _ h id)
    · dsimp only
      exact covered_closeAll h
    · dsimp only
      exact covered_closeAll (hfree _ _ (hfree _ _ h))
    · refine covered_cloneEntries l _ ?_
      exact hset _ _ (hfree _ _ h) fun hr => by simp at hr
    · have hs : ∀ e : KernelHandleEntry, e.reserved = .none → ∀ g,
          ((((s.setSlotFree τ i false).setEntry τ i e).setSlotFree τ i true).lose g).view.Covered := by
        intro e he g
        rw [view_lose]
        exact hfree _ _ (hset _ _ (hfree _ _ h) fun hr => by simp [he] at hr)
      split <;> dsimp only
      · exact covered_closeAll (hs _ rfl _)
      · intro τ' j hr
        obtain ⟨rest, hm, hj⟩ := hs _ rfl (s.entry σ i).grant τ' j hr
        exact ⟨rest, mem_cons_of_mem _ hm, hj⟩

theorem covered_resume (hs : HandleSound s.view) (h : s.view.Covered) : s.resume.view.Covered := by
  unfold resume
  rcases hf : s.frames with _ | ⟨f, fs⟩
  · exact h
  -- a frame that is not of a close of a whole table covers nothing
  have hpop : (∀ τ rest, f ≠ .closeAll τ rest) →
      HandleView.Covered (HandleState.view { s with frames := fs }) := by
    intro hne τ i hr
    obtain ⟨rest, hm, hi⟩ := h τ i hr
    rw [view_frames, hf] at hm
    exact ⟨rest, (mem_cons.1 hm).resolve_left fun he => hne τ rest he.symm, hi⟩
  have hquiet : ∀ τ, ¬ (HandleEvent.call (.close 0 0)).Marks τ := by
    intro τ hm
    simp [HandleEvent.Marks] at hm
  rcases f with _ | ⟨τ, rest⟩ | τ | ⟨τ, type, rest⟩ | rest
  · exact hpop (by simp)
  · refine covered_closeAllRest fun τ' i hr hi => ?_
    obtain ⟨rest', hm, hi'⟩ := h τ' i hr
    rw [view_frames, hf] at hm
    refine ⟨rest', (mem_cons.1 hm).resolve_left fun he => hi ?_, hi'⟩
    obtain ⟨rfl, rfl⟩ : τ' = τ ∧ rest' = rest := by simpa using he
    exact ⟨rfl, hi'⟩
  · exact covered_closeAll (hpop (by simp))
  · exact covered_updates hquiet (hpop (by simp))
      (@closeTypeRest_updates (fun _ _ r => r) s _ τ type rest _)
  · obtain ⟨hnd, hrest⟩ := hs.top_pending hf
    exact covered_updates hquiet (hpop (by simp))
      (@releaseRest_updates (fun _ _ r => r) s _ rest _ hnd hrest)

theorem step_covered {ev : HandleEvent} (hs : HandleSound s.view)
    (ha : HandleAdmissible s ev) (h : s.view.Covered) : (s.step F ev).view.Covered := by
  by_cases hm : ∃ τ, ev.Marks τ
  · obtain ⟨τ, rfl | ⟨σ, grants, rfl⟩ | rfl⟩ := hm
    · simp only [HandleState.step, HandleState.perform]
      exact covered_closeAll h
    · simp only [HandleState.step, HandleState.perform]
      unfold kernelHandleCloneTable
      split_ifs
      · exact h
      · exact covered_cloneEntries _ s h
    · exact covered_resume hs h
  · exact covered_updates (fun τ hτ => hm ⟨τ, hτ⟩) h (step_updates hs ha)

theorem run_covered (h : HandleRun F evs) : (handlesAfter F evs).view.Covered := by
  have hs : HandleSound (handlesAfter F evs).view ∧ (handlesAfter F evs).view.Covered :=
    HandleState.run_induction (I := fun s => HandleSound s.view ∧ s.view.Covered) F
      (fun s ev hs ha => ⟨step_handleSound hs.1 ha, step_covered hs.1 ha hs.2⟩)
      ⟨handleSound_init, fun τ i hr => by simp [kernelHandleTransferPoolInit, HandleState.entry,
        kernelHandleTableInit, freeHandleEntry] at hr⟩ h
  exact hs.2

theorem update_dropped {v v' : HandleView} (hu : HandleUpdate F s₀ ev v v') :
    v.acquired <+: v'.acquired ∧ v.dropped <+: v'.dropped := by
  cases hu <;> constructor <;> first | exact prefix_append _ _ | exact prefix_refl _

theorem run_dropped (hs : HandleSound s.view) (ha : s.Along F HandleAdmissible evs) :
    s.acquired <+: (s.run F evs).acquired ∧ s.dropped <+: (s.run F evs).dropped := by
  induction evs generalizing s with
  | nil => exact ⟨prefix_refl _, prefix_refl _⟩
  | cons ev evs ih =>
    have hstep : ∀ v, HandleUpdates F s ev s.view v →
        s.acquired <+: v.acquired ∧ s.dropped <+: v.dropped := by
      intro v hu
      induction hu with
      | refl => exact ⟨prefix_refl _, prefix_refl _⟩
      | tail _ hu ih => exact ⟨ih.1.trans (update_dropped hu).1, ih.2.trans (update_dropped hu).2⟩
    obtain ⟨h1, h2⟩ := hstep _ (step_updates hs ha.1)
    obtain ⟨h3, h4⟩ := ih (step_handleSound hs ha.1) ha.2
    exact ⟨h1.trans h3, h2.trans h4⟩

/-- Reference `t` is held at `x`: by a table entry that is occupied, or marked by a close of the
whole table that is under way, or by a live detached entry. -/
def HeldAt (s : HandleState) (t : ℕ) : HandleHolder → Prop
  | .table τ i => ((s.entry τ i).occupied = true ∨ (s.entry τ i).reserved = .closing ∧
      ∃ rest, ReleaseFrame.closeAll τ rest ∈ s.frames ∧ i ∈ rest) ∧ (s.entry τ i).reference = t
  | .detached d => ∃ e, s.detachedEntryAt d = some e ∧ e.state = .live ∧ e.reference = t

/-- What the holder would release: the object, and the callback. -/
def HandleState.heldGrant (s : HandleState) : HandleHolder → Option HandleGrant
  | .table τ i => some (s.entry τ i).grant
  | .detached d => (s.detachedEntryAt d).map KernelDetachedEntry.grant

/-- The references acquired: each has one holder, which would release it as it was acquired, or its
release was run, once, and it has no holder. -/
def ReferencesKept (s : HandleState) : Prop :=
  ∀ t g, s.acquired[t]? = some g →
    (∃ x, HeldAt s t x ∧ s.heldGrant x = some g ∧ ∀ y, HeldAt s t y → y = x) ∧
        (∀ g', (t, g') ∉ s.dropped) ∨
      (∀ x, ¬ HeldAt s t x) ∧ (s.dropped.map Prod.fst).count t = 1 ∧ (t, g) ∈ s.dropped

theorem heldAt_iff (hc : s.view.Covered) (t : ℕ) (x : HandleHolder) :
    HeldAt s t x ↔ ∃ g, s.view.hold x = some (t, g) := by
  rcases x with ⟨τ, i⟩ | d
  · constructor
    · rintro ⟨hh, rfl⟩
      have hh' : (s.entry τ i).holds := hh.imp id And.left
      exact ⟨_, hold_table hh'⟩
    · rintro ⟨g, hg⟩
      obtain ⟨hh, hr, -⟩ := hold_table_some hg
      exact ⟨hh.imp id fun hcl => ⟨hcl, hc τ i hcl⟩, hr⟩
  · constructor
    · rintro ⟨e, he, hst, rfl⟩
      exact ⟨e.grant, by simp [HandleView.hold, he, hst]⟩
    · rintro ⟨g, hg⟩
      obtain ⟨e, he, hst⟩ := Option.bind_eq_some_iff.1 hg
      split_ifs at hst with hlive
      exact ⟨e, he, hlive, (by simpa using hst : e.reference = t ∧ _).1⟩

theorem heldGrant_eq {x : HandleHolder}
    (h : s.view.hold x = some (t, g)) : s.heldGrant x = some g := by
  rcases x with ⟨τ, i⟩ | d
  · exact congrArg some (hold_table_some h).2.2
  · obtain ⟨e, he, hst⟩ := Option.bind_eq_some_iff.1 h
    split_ifs at hst with hlive
    rw [view_detached] at he
    simpa [HandleState.heldGrant, he] using (by simpa using hst : _ ∧ e.grant = g).2

theorem referencesKept (h : s.view.Counted) (hc : s.view.Covered) : ReferencesKept s := by
  intro t g hg
  have ht : t < s.view.acquired.length := (List.getElem?_eq_some_iff.1 hg).1
  rcases h.kept t ht with ⟨g', hd⟩ | ⟨x, g', hx⟩
  · right
    obtain rfl : g = g' := by simpa [hg] using h.gone t g' hd
    refine ⟨fun x hx => ?_, ?_, hd⟩
    · obtain ⟨g', hx'⟩ := (heldAt_iff hc t x).1 hx
      exact h.apart x t g' g hx' hd
    · exact count_eq_one_of_mem h.nodup (mem_map.2 ⟨(t, g), hd, rfl⟩)
  · left
    obtain rfl : g = g' := by simpa [hg] using h.held x t g' hx
    refine ⟨⟨x, (heldAt_iff hc t x).2 ⟨g, hx⟩, heldGrant_eq hx, fun y hy => ?_⟩, fun g' hd => ?_⟩
    · obtain ⟨g', hy'⟩ := (heldAt_iff hc t y).1 hy
      exact h.once y x t g' g hy' hx
    · exact h.apart x t g g' hx hd

def grantedSlot : SlotGrant := ⟨true, true, true⟩

/-- Two handles are installed and the table is closed: the callback of the first one is running. -/
def closingTable : List HandleEvent :=
  [.call (.install 0 .sync 1#32 1 (some 7) 0 grantedSlot),
    .call (.install 0 .sync 1#32 2 (some 7) 0 grantedSlot), .call (.closeAll 0)]

theorem closingTable_run : HandleRun (fun _ _ r => r) closingTable :=
  ⟨trivial, trivial, trivial, trivial⟩

/-- Held by an occupied entry or a live detached one, and by nothing else. -/
def HeldOpenly (s : HandleState) (t : ℕ) : HandleHolder → Prop
  | .table τ i => (s.entry τ i).occupied = true ∧ (s.entry τ i).reference = t
  | .detached d => ∃ e, s.detachedEntryAt d = some e ∧ e.state = .live ∧ e.reference = t

end Astra
