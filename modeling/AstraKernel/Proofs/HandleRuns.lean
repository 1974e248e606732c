import AstraKernel.Proofs.HandleMoves

/-!
# What every run over handle tables keeps

The invariant of the tables and of the calls that are interrupted, kept by every update; a step of
a run is a sequence of updates, so every run keeps it.
-/

namespace Astra

open HandleState List

/-- A slot that is free holds and reserves nothing, an occupied one carries no mark, and the
generation tells how often the slot was given up, up to a wrap. -/
structure EntrySound (e : KernelHandleEntry) (free : Bool) : Prop where
  free : free = true → e.occupied = false ∧ e.reserved = .none
  plain : e.occupied = true → e.reserved = .none
  generation : e.generation = 1 + e.retirements % kernelHandleGenerationMask

structure HandleSound (v : HandleView) : Prop where
  entries : ∀ τ i, EntrySound (v.entry τ i) (v.free τ i)
  release : ∀ d e, v.detached d = some e → e.state ≠ .free → e.release ≠ none
  slots : ∀ r, (v.reservations r).slots.Nodup
  pending : v.pending.Nodup
  live : ∀ d ∈ v.pending, ∃ e, v.detached d = some e ∧ e.state = .live

theorem nextMasked_generation (r : ℕ) :
    kernelGenerationNextMasked (1 + r % kernelHandleGenerationMask) kernelHandleGenerationMask =
      1 + (r + 1) % kernelHandleGenerationMask := by
  unfold kernelGenerationNextMasked kernelHandleGenerationMask
  split_ifs with h <;> omega

theorem normal_generation (r : ℕ) :
    normalGeneration (1 + r % kernelHandleGenerationMask) kernelHandleGenerationMask =
      1 + r % kernelHandleGenerationMask := by
  have h := Nat.mod_lt r (show 0 < kernelHandleGenerationMask by decide)
  unfold normalGeneration
  rw [if_neg (by omega)]

variable {free : Bool} {s : HandleState} {e e' : KernelHandleEntry}

section

variable (h : EntrySound e free)
include h

theorem EntrySound.retired (b : Bool) : EntrySound e.retired b where
  free _ := ⟨rfl, rfl⟩
  plain ho := by simp [KernelHandleEntry.retired, freeHandleEntry] at ho
  generation := by
    simp only [KernelHandleEntry.retired]
    rw [h.generation, nextMasked_generation]

theorem EntrySound.normal (hr : e'.retirements = e.retirements) (hg : e'.generation = e.generation ∨
      e'.generation = normalGeneration e.generation kernelHandleGenerationMask) :
    e'.generation = 1 + e'.retirements % kernelHandleGenerationMask := by
  rcases hg with hg | hg
  · rw [hg, hr, h.generation]
  · rw [hg, hr, h.generation, normal_generation]

theorem EntrySound.occupied (hf : free = false) (hres : e'.reserved = .none)
    (hr : e'.retirements = e.retirements) (hg : e'.generation = e.generation ∨
      e'.generation = normalGeneration e.generation kernelHandleGenerationMask) :
    EntrySound e' free where
  free hf' := by simp [hf] at hf'
  plain _ := hres
  generation := h.normal hr hg

end

namespace HandleSound

variable {v : HandleView}

variable {v' : HandleView} {e : KernelDetachedEntry} {d i τ : ℕ}

section

variable (h : HandleSound v)
include h

theorem setEntry {e : KernelHandleEntry}
    (he : EntrySound e (v.free τ i)) : HandleSound (v.setEntry τ i e) where
  entries τ' j := by
    rw [HandleView.setEntry_entry, HandleView.setEntry_free]
    split_ifs with hj
    · rw [hj.1, hj.2]
      exact he
    · exact h.entries τ' j
  release := h.release
  slots := h.slots
  pending := h.pending
  live := h.live

theorem setFree {b : Bool} (he : EntrySound (v.entry τ i) b) : HandleSound (v.setFree τ i b) where
  entries τ' j := by
    rw [HandleView.setFree_free, HandleView.setFree_entry]
    split_ifs with hj
    · rw [hj.1, hj.2]
      exact he
    · exact h.entries τ' j
  release := h.release
  slots := h.slots
  pending := h.pending
  live := h.live

theorem setDetached
    (he : e.state ≠ .free → e.release ≠ none) (hd : d ∈ v.pending → e.state = .live) :
    HandleSound (v.setDetached d e) where
  entries := h.entries
  release d' e' hd' hst := by
    rw [HandleView.setDetached_at] at hd'
    split_ifs at hd' with hdd
    · cases hd'
      exact he hst
    · exact h.release d' e' hd' hst
  slots := h.slots
  pending := h.pending
  live d' hd' := by
    rw [HandleView.setDetached_at]
    split_ifs with hdd
    · exact ⟨e, rfl, hd (hdd ▸ hd')⟩
    · exact h.live d' hd'

theorem acquire (g : HandleGrant) : HandleSound (v.acquire g) :=
  ⟨h.entries, h.release, h.slots, h.pending, h.live⟩

theorem drop (t : ℕ) (g : HandleGrant) : HandleSound (v.drop t g) :=
  ⟨h.entries, h.release, h.slots, h.pending, h.live⟩

theorem not_pending (hd : v.detached d = some e) (hst : e.state ≠ .live) : d ∉ v.pending := by
  intro hp
  obtain ⟨e', he', hst'⟩ := h.live d hp
  obtain rfl : e = e' := by simpa [hd] using he'
  exact hst hst'

end

variable {F : KernelHandleImportRights} {s₀ : HandleState} {ev : HandleEvent}

theorem update (h : HandleSound v) (hu : HandleUpdate F s₀ ev v v') : HandleSound v' := by
  cases hu with
  | claimed τ i => exact h.setFree ⟨fun hf => by simp at hf, (h.entries τ i).2, (h.entries τ i).3⟩
  | freed τ i ho hr => exact h.setFree ⟨fun _ => ⟨ho, hr⟩, (h.entries τ i).2, (h.entries τ i).3⟩
  | idle τ i e hn hn' hf hr hg =>
    have ho : e.occupied = false := by
      by_contra ho
      exact hn' (.inl (by simpa using ho))
    refine h.setEntry ⟨fun hfree => ⟨ho, ?_⟩, fun h => by simp [ho] at h,
      (h.entries τ i).normal hr hg⟩
    by_contra hres
    simp [hf hres] at hfree
  | adopted σ τ i grants e hev hfr ho hres hg =>
    refine h.setEntry ⟨fun _ => ⟨ho, hres⟩, fun _ => hres, ?_⟩
    rcases hg with ⟨hg, hr⟩ | ⟨hg, hr⟩
    · rw [hg, hr, (h.entries σ i).generation]
    · rw [hg, hr, ((h.entries σ i).retired false).generation]
  | installed τ i e hev hok hn hf ho hres href hr hg =>
    exact (h.setEntry ((h.entries τ i).occupied hf hres hr (.inr hg))).acquire _
  | copied σ j τ i e hev hs hso htr hsub hobj hn hf ho hres href hr hg =>
    exact (h.setEntry ((h.entries τ i).occupied hf hres hr (.inr hg))).acquire _
  | cloned σ τ i grants e hev hfr hf hs hs' ho =>
    refine (h.setEntry ⟨fun hf' => by simp [hf] at hf', fun _ => rfl, ?_⟩).acquire _
    rw [← hs]
    exact (h.entries σ i).generation
  | lost g => exact (h.acquire g).drop _ _
  | marked τ i hev ho =>
    refine h.setEntry ⟨fun hf => ?_, fun ho' => by simp at ho', (h.entries τ i).generation⟩
    simp [((h.entries τ i).free hf).1] at ho
  | retired τ i hh => exact (h.setEntry ((h.entries τ i).retired _)).drop _ _
  | context τ i c ho =>
    exact h.setEntry ⟨(h.entries τ i).free, (h.entries τ i).plain, (h.entries τ i).generation⟩
  | exported τ i d e ho hd hst hg =>
    refine (h.setEntry ((h.entries τ i).retired _)).setDetached (fun _ => ?_) fun _ => rfl
    exact h.release d e hd (by simp [hst])
  | imported d τ i r g hs e e' hev hn hf hd hd' hst hp hg href ho hres hr hgen hri =>
    refine (h.setEntry ((h.entries τ i).occupied hf hres hr (.inl hgen))).setDetached
      (fun h => absurd rfl h) fun hp' => absurd hp' hp
  | backed detached hkeep hnew =>
    refine ⟨h.entries, fun d e hd hst => ?_, h.slots, h.pending, fun d hd => ?_⟩
    · rcases hv : v.detached d with _ | e'
      · exact absurd (hnew d e hv hd) hst
      · obtain rfl : e' = e := by
          have hd' := hkeep d e' hv
          simpa [hd'] using hd
        exact h.release d e' hv hst
    · obtain ⟨e, he, hst⟩ := h.live d hd
      exact ⟨e, hkeep d e he, hst⟩
  | prepared τ i d e e' ho hs htr hd hst hst' hg hrel hri =>
    exact h.setDetached (fun _ => hrel) fun hp => absurd hp (h.not_pending hd (by simp [hst]))
  | narrowed d e mask hd hst =>
    exact h.setDetached (fun hne => h.release d e hd hne)
      fun hp => absurd hp (h.not_pending hd (by simp [hst]))
  | unprepared d g e hd hst =>
    exact h.setDetached (fun hne => absurd rfl hne)
      fun hp => absurd hp (h.not_pending hd (by simp [hst]))
  | released d g e hd hst hp =>
    exact (h.setDetached (fun hne => absurd rfl hne) fun hp' => absurd hp' hp).drop _ _
  | interrupted f hnd hdis hlive =>
    refine ⟨h.entries, h.release, h.slots, ?_, ?_⟩
    · show (f.pending ++ v.pending).Nodup
      refine nodup_append.2 ⟨hnd, h.pending, ?_⟩
      intro a ha b hb hab
      exact hdis a ha (hab ▸ hb)
    · intro d hd
      rcases mem_append.1 (show d ∈ f.pending ++ v.pending from hd) with hd | hd
      · exact hlive d hd
      · exact h.live d hd
  | returned f fs hev hf =>
    have hp : v.pending = f.pending ++ fs.flatMap ReleaseFrame.pending := by
      simp [HandleView.pending, hf]
    refine ⟨h.entries, h.release, h.slots, ?_, fun d hd => h.live d ?_⟩
    · exact (nodup_append.1 (hp ▸ h.pending)).2.1
    · rw [hp]
      exact mem_append_right _ hd
  | reserved r reservation hnd =>
    refine ⟨h.entries, h.release, fun r' => ?_, h.pending, h.live⟩
    by_cases hr : r' = r
    · subst hr
      simpa using hnd
    · simpa [Function.update_of_ne hr] using h.slots r'

theorem updates (h : HandleSound v) (hu : HandleUpdates F s₀ ev v v') : HandleSound v' := by
  induction hu with
  | refl => exact h
  | tail _ hu ih => exact ih.update hu

end HandleSound

variable {F : KernelHandleImportRights}

section

variable (h : HandleSound s.view)
include h

theorem HandleSound.top_pending {rest : List ℕ}
    {fs : List ReleaseFrame} (hf : s.frames = .detachedRelease rest :: fs) :
    rest.Nodup ∧ ∀ d ∈ rest, d ∉ HandleState.pending { s with frames := fs } ∧
      ∃ e, s.detachedEntryAt d = some e ∧ e.state = .live := by
  have hp : s.view.pending = rest ++ fs.flatMap ReleaseFrame.pending := by
    rw [view_pending, HandleState.pending, hf]
    rfl
  obtain ⟨hnd, -, hdis⟩ := nodup_append.1 (hp ▸ h.pending)
  refine ⟨hnd, fun d hd => ⟨fun hd' => hdis d hd d hd' rfl, ?_⟩⟩
  exact h.live d (by rw [hp]; exact mem_append_left _ hd)

theorem resume_updates : HandleUpdates F s .returned s.view s.resume.view := by
  unfold resume
  rcases hf : s.frames with _ | ⟨f, fs⟩
  · exact .refl
  have hpop : HandleUpdates F s .returned s.view (HandleState.view { s with frames := fs }) :=
    .single (.returned s.view f fs rfl hf)
  rcases f with _ | ⟨τ, rest⟩ | τ | ⟨τ, type, rest⟩ | rest
  · exact hpop
  · exact hpop.trans (closeAllRest_updates τ rest _)
  · exact hpop.trans (closeAll_updates _ (.inr (.inr rfl)))
  · exact hpop.trans (closeTypeRest_updates τ type rest _)
  · obtain ⟨hnd, hrest⟩ := h.top_pending hf
    exact hpop.trans (releaseRest_updates rest _ hnd hrest)

theorem step_updates {ev : HandleEvent}
    (ha : HandleAdmissible s ev) : HandleUpdates F s ev s.view (s.step F ev).view := by
  rcases ev with c | _
  · cases c with
    | setOwner τ owner processId => exact .of_eq (view_setOwner s τ owner processId)
    | cloneTable σ τ grants =>
      obtain ⟨-, hent, -⟩ := ha
      have hfr : ∀ i ∈ List.range kernelHandleMaxEntries, s.entry τ i = freeHandleEntry :=
        fun i _ => congrFun hent i
      show HandleUpdates F s _ s.view (kernelHandleCloneTable s σ τ grants).2.view
      unfold kernelHandleCloneTable
      split_ifs
      · exact .refl
      · exact cloneEntries_updates rfl _ s nodup_range hfr fun _ _ => rfl
    | install τ type rights object release context grant =>
      exact install_updates (.inl ⟨type, release, context, grant, rfl⟩) fun hok => ⟨_, rfl, hok⟩
    | installCloneable τ type rights object retain release context grant =>
      show HandleUpdates F s _ s.view
        (kernelHandleInstallCloneable s τ type rights object retain release context grant).2.view
      have hinst : kernelHandleInstallCloneable s τ type rights object retain release context grant =
          if retain = none then ((.invalidArgument, 0), s)
          else install s τ type rights object retain release context grant := rfl
      by_cases hr : retain = none
      · rw [hinst, if_pos hr]
      · rw [hinst, if_neg hr]
        refine install_updates (.inr ⟨type, retain, release, context, grant, rfl⟩)
          fun hok => ⟨_, rfl, ?_⟩
        simpa [HandleState.perform, kernelHandleInstallCloneable, hr] using hok
    | duplicate τ source rights grant =>
      exact duplicateInto_updates (.inr ⟨rfl, source, grant, rfl⟩)
    | duplicateInto σ source rights τ grant =>
      exact duplicateInto_updates (.inl ⟨source, grant, rfl⟩)
    | lookup τ handle type rights => exact .of_eq (view_lookup s τ handle type rights)
    | lookupContext τ handle type rights => exact .of_eq (view_lookupContext s τ handle type rights)
    | lookupAny τ handle rights => exact .of_eq (view_lookupAny s τ handle rights)
    | setContext τ handle type context => exact setContext_updates s τ handle type context
    | close τ handle => exact close_updates s τ handle
    | closeAll τ =>
      simp only [HandleState.step, HandleState.perform]
      exact closeAll_updates s (.inl rfl)
    | closeType τ type => exact closeType_updates s τ type
    | transferValidate τ handles required =>
      exact .of_eq (validateTransferSources_spec s τ handles required).1
    | transferPrepare τ handles required b grants => exact transferPrepare_updates ha
    | transferNarrow b masks => exact transferNarrow_updates s b masks
    | transferCommitExport τ b => exact transferCommitExport_updates s τ b
    | transferRollback b => exact transferRollback_updates s b
    | importReserve τ detached r grants => exact importReserve_updates s τ r detached grants
    | importCommit τ r detached => exact importCommit_updates rfl (h.slots r) ha
    | importCancel τ r => exact importCancel_updates s τ r
    | detachedRelease detached => exact detachedRelease_updates ha
  · exact resume_updates h

end

theorem handleSound_init : HandleSound kernelHandleTransferPoolInit.view where
  entries _ _ := ⟨fun _ => ⟨rfl, rfl⟩, fun h => by simp [kernelHandleTransferPoolInit,
    HandleState.entry, kernelHandleTableInit, freeHandleEntry] at h, rfl⟩
  release d e hd := by simp [kernelHandleTransferPoolInit, detachedEntryAt] at hd
  slots _ := nodup_nil
  pending := nodup_nil
  live _ hd := absurd hd not_mem_nil

theorem step_handleSound {ev : HandleEvent} (h : HandleSound s.view)
    (ha : HandleAdmissible s ev) : HandleSound (s.step F ev).view :=
  h.updates (step_updates (F := F) h ha)

/-- The state after some events, from boot. -/
def handlesAfter (F : KernelHandleImportRights) (evs : List HandleEvent) : HandleState :=
  kernelHandleTransferPoolInit.run F evs

/-- The events of a run from boot keep to what the rest of the kernel keeps to. -/
def HandleRun (F : KernelHandleImportRights) (evs : List HandleEvent) : Prop :=
  kernelHandleTransferPoolInit.Along F HandleAdmissible evs

theorem handlesAfter_append (evs evs' : List HandleEvent) :
    handlesAfter F (evs ++ evs') = (handlesAfter F evs).run F evs' :=
  HandleState.run_append F _ evs evs'

theorem run_handleSound {evs : List HandleEvent} (h : HandleRun F evs) :
    HandleSound (handlesAfter F evs).view :=
  HandleState.run_induction (I := fun s => HandleSound s.view) F
    (fun _ _ hs ha => step_handleSound hs ha) handleSound_init h

end Astra
