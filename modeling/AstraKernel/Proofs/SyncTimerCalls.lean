import AstraKernel.Proofs.SyncTimers

/-!
# Calls that are not on timers

Calls on the other objects, waits and handles leave every timer armed and fired as it was. A call
that may close one leaves the timers that stay open as they were.
-/

namespace Astra

open Finset Function

/-- The deadline that a timer is armed for. -/
def SyncState.armedFor (s : SyncState) (n : ℕ) : Option ℕ :=
  if n ∈ s.timerHeap then some (s.object n).deadline else none

/-- A timer whose deadline has come, and that was not set or cancelled since. -/
def SyncState.Fired (s : SyncState) (n : ℕ) : Prop :=
  (s.object n).state = .live ∧ (s.object n).type = .timer ∧ (s.object n).count ≠ 0

structure TimersKept (s s' : SyncState) : Prop where
  sound : TimerSound s'
  live : ∀ m, (s'.object m).state = .live → (s.object m).state = .live
  armed : ∀ m, (s'.object m).state = .live → s'.armedFor m = s.armedFor m
  fired : ∀ m, (s'.object m).state = .live → (s'.Fired m ↔ s.Fired m)

section

variable {s s' s₁ : SyncState} {n m : ℕ} {p : Pool}

theorem TimersKept.refl (h : TimerSound s) : TimersKept s s :=
  ⟨h, fun _ => id, fun _ _ => rfl, fun _ _ => Iff.rfl⟩

theorem TimersKept.trans (h : TimersKept s s₁) (h' : TimersKept s₁ s') : TimersKept s s' where
  sound := h'.sound
  live m hm := h.live m (h'.live m hm)
  armed m hm := (h'.armed m hm).trans (h.armed m (h'.live m hm))
  fired m hm := (h'.fired m hm).trans (h.fired m (h'.live m hm))

theorem armedFor_of_notMem (hn : n ∉ s.timerHeap) : s.armedFor n = none := if_neg hn

theorem TimerSound.armedFor_of_closed (h : TimerSound s) (hn : (s.object n).state ≠ .live) :
    s.armedFor n = none :=
  armedFor_of_notMem (h.notMem (.inl hn))

theorem TimersKept.of_sound (hs : TimerSound s')
    (hheap : s'.timerHeap = s.timerHeap)
    (hdeadline : ∀ n ∈ s.timerHeap, (s'.object n).deadline = (s.object n).deadline)
    (hkept : ∀ m, (s'.object m).state = .live → (s.object m).state = .live ∧
      (s'.object m).type = (s.object m).type ∧
      ((s.object m).type = .timer → (s'.object m).count = (s.object m).count)) :
    TimersKept s s' where
  sound := hs
  live m hm := (hkept m hm).1
  armed m _ := by
    unfold SyncState.armedFor
    rw [hheap]
    split_ifs with hmem
    · rw [hdeadline m hmem]
    · rfl
  fired m hm := by
    obtain ⟨h1, h2, h3⟩ := hkept m hm
    unfold SyncState.Fired
    rw [h2]
    refine ⟨fun ⟨_, ht, hc⟩ => ⟨h1, ht, h3 ht ▸ hc⟩, fun ⟨_, ht, hc⟩ => ⟨hm, ht, (h3 ht).symm ▸ hc⟩⟩

theorem TimersKept.of_eq (h : TimerSound s) (hheap : s'.timerHeap = s.timerHeap)
    (hleaf : s'.timerHeapDirectory = s.timerHeapDirectory) (hobject : s'.object = s.object) :
    TimersKept s s' := by
  refine .of_sound (h.change hheap (hleaf ▸ h.leaf) (hobject ▸ h.opened)
    (fun n => by rw [hobject]) fun n _ => by simp [hobject]) hheap (fun n _ => by rw [hobject])
    fun m hm => ?_
  rw [hobject] at hm ⊢
  exact ⟨hm, rfl, fun _ => rfl⟩

theorem TimersKept.withPool (h : TimerSound s) (p : Pool) : TimersKept s (s.withPool p) :=
  .of_eq h rfl rfl rfl

theorem TimersKept.corrupted (h : TimerSound s) : TimersKept s s.corrupted := .of_eq h rfl rfl rfl

variable {f : KernelSyncObject → KernelSyncObject}

theorem TimersKept.setObject (h : TimerSound s) (hopened : OpenObject (f (s.object n)))
    (hposition : (f (s.object n)).timerPosition = (s.object n).timerPosition)
    (harmed : n ∈ s.timerHeap → (f (s.object n)).state = (s.object n).state ∧
      (f (s.object n)).deadline = (s.object n).deadline)
    (hkept : (f (s.object n)).state = .live → (s.object n).state = .live ∧
      (f (s.object n)).type = (s.object n).type ∧
      ((s.object n).type = .timer → (f (s.object n)).count = (s.object n).count)) :
    TimersKept s (s.setObject n f) := by
  have hself : (s.setObject n f).object n = f (s.object n) := update_self ..
  have hother : ∀ m, m ≠ n → (s.setObject n f).object m = s.object m :=
    fun m hm => update_of_ne hm _ _
  refine .of_sound (h.setObject hopened hposition fun hn => ?_) rfl (fun m hm => ?_) fun m hm => ?_
  · obtain ⟨hl, ht, -⟩ := h.armed n hn
    obtain ⟨h1, h2⟩ := harmed hn
    obtain ⟨-, h3, h4⟩ := hkept (h1.trans hl)
    exact ⟨h1, h3, h4 ht, h2⟩
  · rcases eq_or_ne m n with rfl | hne
    · exact hself ▸ (harmed hm).2
    · rw [hother m hne]
  · rcases eq_or_ne m n with rfl | hne
    · rw [hself] at hm ⊢
      exact hkept hm
    · rw [hother m hne] at hm ⊢
      exact ⟨hm, rfl, fun _ => rfl⟩

theorem TimersKept.setSame (h : TimerSound s)
    (hposition : (f (s.object n)).timerPosition = (s.object n).timerPosition)
    (hdeadline : (f (s.object n)).deadline = (s.object n).deadline)
    (hstate : (f (s.object n)).state = (s.object n).state)
    (htype : (f (s.object n)).type = (s.object n).type)
    (hcount : (s.object n).type = .timer → (f (s.object n)).count = (s.object n).count)
    (hopened : OpenObject (f (s.object n))) :
    TimersKept s (s.setObject n f) :=
  .setObject h hopened hposition (fun _ => ⟨hstate, hdeadline⟩)
    fun hl => ⟨hstate ▸ hl, htype, hcount⟩

/-! ## Creating objects -/

theorem addLeaf_kept (hs : SyncSound s) (h : TimerSound s) {leafIndex : ℕ}
    (hl : s.objectDirectory leafIndex = false) : TimersKept s (s.addLeaf leafIndex) := by
  have hfree : ∀ m, m / syncLeafEntries = leafIndex → (s.object m).state = .free := by
    intro m hm
    by_contra hne
    have := (hs.backed m hne).2
    simp [hm, hl] at this
  have hobject : ∀ m, (s.addLeaf leafIndex).object m = s.object m ∨
      (s.object m).state = .free ∧ (s.addLeaf leafIndex).object m = freeSyncObject 1 := by
    intro m
    by_cases hm : m < kernelSyncObjectMax ∧ m / syncLeafEntries = leafIndex
    · exact .inr ⟨hfree m hm.2, if_pos (decide_eq_true hm)⟩
    · exact .inl (if_neg (by simpa using hm))
  have hkept : ∀ m ∈ s.timerHeap, (s.addLeaf leafIndex).object m = s.object m := fun m hm =>
    (hobject m).resolve_right fun h1 => by simp [(h.armed m hm).1] at h1
  refine .of_sound (h.change rfl h.leaf (fun m => ?_) (fun m => ?_) fun m hm => ?_) rfl
    (fun m hm => by rw [hkept m hm]) fun m hm => ?_
  · rcases hobject m with he | ⟨-, he⟩
    · exact he ▸ h.opened m
    · rw [he]
      intro hlive
      simp [freeSyncObject] at hlive
  · rcases hobject m with he | ⟨hf, he⟩
    · rw [he]
    · rw [he, h.position_none (h.notMem (.inl (by simp [hf])))]
      rfl
  · rw [hkept m hm]
    exact ⟨rfl, rfl, rfl, rfl⟩
  · rcases hobject m with he | ⟨-, he⟩
    · rw [he] at hm ⊢
      exact ⟨hm, rfl, fun _ => rfl⟩
    · simp [he, freeSyncObject] at hm

theorem ensureObjectLeaf_kept (hs : SyncSound s) (h : TimerSound s) (slot : ℕ) (memory : Bool) :
    TimersKept s (ensureObjectLeaf s slot memory).2 := by
  unfold ensureObjectLeaf
  dsimp only
  split_ifs with hl
  · exact .refl h
  · exact addLeaf_kept hs h (by simpa using hl)
  · exact .refl h

theorem allocateObjectSlot_kept (memory : Bool) : ∀ (fuel : ℕ) {s : SyncState} (offset : ℕ),
    SyncSound s → TimerSound s → TimersKept s (allocateObjectSlot memory fuel s offset).2
  | 0, _, _, _, h => .refl h
  | fuel + 1, s, offset, hs, h => by
    unfold allocateObjectSlot
    dsimp only
    generalize (if kernelSyncObjectMax ≤ s.nextObjectSlot + offset
      then s.nextObjectSlot + offset - kernelSyncObjectMax else s.nextObjectSlot + offset) = slot
    obtain ⟨hs₁, -, -⟩ := ensureObjectLeaf_quiet hs slot memory
    have h₁ := ensureObjectLeaf_kept hs h slot memory
    generalize ensureObjectLeaf s slot memory = r at hs₁ h₁
    obtain ⟨_ | _, s₁⟩ := r
    · exact h₁
    dsimp only at hs₁ h₁ ⊢
    split
    · exact h₁.trans (.of_eq h₁.sound rfl rfl rfl)
    · exact h₁.trans (allocateObjectSlot_kept memory fuel _ hs₁.sound h₁.sound)

structure TimersCreated (s s' : SyncState) : Prop where
  sound : TimerSound s'
  armed : ∀ m, (s'.object m).state = .live → s'.armedFor m = s.armedFor m
  fired : ∀ m, (s'.object m).state = .live → (s'.Fired m ↔ s.Fired m)

theorem TimersKept.created (h : TimersKept s s') : TimersCreated s s' := ⟨h.sound, h.armed, h.fired⟩

theorem publish_created (h : TimerSound s) (hk : TimersKept s s₁) (hf : (s.object n).state = .free)
    (hf₁ : (s₁.object n).state = .free) {owner : ℕ} {type : KernelSyncType}
    (howner : owner ≠ 0) (htype : type ≠ .none)
    (hcount : ∀ o, type = .timer → (f o).count = o.count)
    (hsame : ∀ o, { f o with count := o.count, maximum := o.maximum } = o) :
    TimersCreated s ((s₁.publish n owner type).setObject n f) := by
  have hstate : ∀ o, (f o).state = o.state := fun o => by
    have := congrArg KernelSyncObject.state (hsame o)
    exact this
  have htype' : ∀ o, (f o).type = o.type := fun o => by
    have := congrArg KernelSyncObject.type (hsame o)
    exact this
  have hposition : ∀ o, (f o).timerPosition = o.timerPosition := fun o => by
    have := congrArg KernelSyncObject.timerPosition (hsame o)
    exact this
  obtain ⟨o, ho⟩ : ∃ o : KernelSyncObject, o = { freeSyncObject
      (kernelGenerationNext s₁.nextObjectGeneration) with
      owner := owner
      references := 1
      type := type
      state := .live } := ⟨_, rfl⟩
  have hself : ((s₁.publish n owner type).setObject n f).object n = f o := by
    rw [ho]
    simp [SyncState.setObject, SyncState.publish]
  have hother : ∀ m, m ≠ n →
      ((s₁.publish n owner type).setObject n f).object m = s₁.object m := by
    intro m hm
    simp [SyncState.setObject, SyncState.publish, update_of_ne hm]
  have hn₁ : n ∉ s₁.timerHeap := hk.sound.notMem (.inl (by simp [hf₁]))
  have hopened : OpenObject (f o) := by
    have hgeneration := (kernelGenerationNext_pos s₁.nextObjectGeneration).1.ne'
    have ho' : OpenObject o := fun _ => by
      rw [ho]
      exact ⟨htype, howner, hgeneration, one_ne_zero, rfl⟩
    rw [← hsame o] at ho'
    exact ho'
  have hheap : ((s₁.publish n owner type).setObject n f).timerHeap = s₁.timerHeap := rfl
  refine ⟨hk.sound.change rfl hk.sound.leaf (fun m => ?_) (fun m => ?_) fun m hm => ?_,
    fun m hm => ?_, fun m hm => ?_⟩
  · rcases eq_or_ne m n with rfl | hne
    · exact hself ▸ hopened
    · exact hother m hne ▸ hk.sound.opened m
  · rcases eq_or_ne m n with rfl | hne
    · rw [hself, hposition, hk.sound.position_none hn₁, ho]
      rfl
    · rw [hother m hne]
  · have hne : m ≠ n := fun he => hn₁ (he ▸ hm)
    rw [hother m hne]
    exact ⟨rfl, rfl, rfl, rfl⟩
  · rcases eq_or_ne m n with rfl | hne
    · rw [h.armedFor_of_closed (by simp [hf]), armedFor_of_notMem (by rw [hheap]; exact hn₁)]
    · rw [hother m hne] at hm
      rw [← hk.armed m hm, SyncState.armedFor, SyncState.armedFor, hheap, hother m hne]
  · rcases eq_or_ne m n with rfl | hne
    · refine iff_of_false (fun hfired => ?_) fun hfired => ?_
      · obtain ⟨-, h2, h3⟩ := hfired
        rw [hself, htype', ho] at h2
        rw [hself, hcount o h2, ho] at h3
        exact h3 rfl
      · exact absurd (hf.symm.trans hfired.1) (by decide)
    · rw [hother m hne] at hm
      rw [← hk.fired m hm, SyncState.Fired, SyncState.Fired, hother m hne]

theorem create_timers (hs : SyncSound s) (h : TimerSound s) (owner : ℕ) (type : KernelSyncType)
    (grant : SyncGrant)
    (hcount : ∀ o, type = .timer → (f o).count = o.count)
    (hsame : ∀ o, { f o with count := o.count, maximum := o.maximum } = o) :
    TimersCreated s (match allocateObject s owner type grant with
      | (.ok, s, some n) => (.ok, s.setObject n f, some n)
      | r => r : KernelSyncStatus × SyncState × Option ℕ).2.1 := by
  unfold allocateObject
  by_cases hargs : owner = 0 ∨ type = .none
  · rw [if_pos hargs]
    exact (TimersKept.refl h).created
  rw [if_neg hargs]
  rw [not_or] at hargs
  by_cases ha : grant.attempt = false
  · rw [if_pos ha]
    exact (TimersKept.refl h).created
  rw [if_neg ha]
  have hk := allocateObjectSlot_kept grant.leaf kernelSyncObjectMax 0 hs h
  obtain ⟨-, hfound⟩ := allocateObjectSlot_quiet grant.leaf kernelSyncObjectMax 0 hs
    (Nat.zero_add _).le
  generalize allocateObjectSlot grant.leaf kernelSyncObjectMax s 0 = r at hk hfound
  obtain ⟨_ | n, s₁⟩ := r
  · exact hk.created
  obtain ⟨-, hf₁, hf⟩ := hfound n rfl
  dsimp only at hk hf₁ ⊢
  by_cases hu : grant.unit = false
  · rw [if_pos hu]
    exact (hk.trans (.corrupted hk.sound)).created
  rw [if_neg hu]
  by_cases hbad : (s₁.object n).state ≠ .free ∨ (s₁.object n).timerPosition ≠ none
  · rw [if_pos hbad]
    exact (hk.trans (.corrupted hk.sound)).created
  · rw [if_neg hbad]
    exact publish_created h hk hf hf₁ hargs.1 hargs.2 hcount hsame

/-! ## Freeing and closing -/

theorem discardSyncMetadata_kept (h : TimerSound s) (hempty : s.timerHeap = []) :
    TimersKept s (discardSyncMetadata s).2 := by
  unfold discardSyncMetadata
  split_ifs
  · exact .refl h
  · refine .of_sound (h.change rfl (fun i hi => ?_) h.opened (fun _ => rfl)
      fun _ _ => ⟨rfl, rfl, rfl, rfl⟩) rfl (fun _ _ => rfl) fun _ hm => ⟨hm, rfl, fun _ => rfl⟩
    simp [hempty] at hi

theorem freeObject_kept (hs : SyncSound s) (h : TimerSound s) (hb : (s.object n).state ≠ .free) :
    TimersKept s (freeObject s n) := by
  unfold freeObject
  split
  · exact .corrupted h
  rename_i hgate
  push Not at hgate
  have hn : n ∉ s.timerHeap := fun hm => (h.shape.mem_iff n).1 hm hgate.2.2.1
  have hfreed : TimersKept s (s.setObject n fun o => freeSyncObject o.generation) := by
    refine .setObject h (fun hl => ?_) hgate.2.2.1.symm (fun hm => absurd hm hn) fun hl => ?_
    · simp [freeSyncObject] at hl
    · simp [freeSyncObject] at hl
  dsimp only
  split
  · exact hfreed.trans (.corrupted hfreed.sound)
  split
  · rename_i hlast
    -- the timers of the heap are busy, and the object freed is the only busy one
    have hempty : s.timerHeap = [] := by
      have hmem : n ∈ busyObjects s :=
        mem_filter.2 ⟨mem_range.2 (hs.backed n hb).1, hb⟩
      have hone : (busyObjects s).card ≤ 1 := by
        rw [← hs.active]
        change s.activeObjectCount - 1 = 0 at hlast
        omega
      refine List.eq_nil_iff_forall_not_mem.2 fun m hm => hn ?_
      have hlive : (s.object m).state ≠ .free := by simp [(h.armed m hm).1]
      have hm' : m ∈ busyObjects s :=
        mem_filter.2 ⟨mem_range.2 (hs.backed m hlive).1, hlive⟩
      exact card_le_one.1 hone m hm' n hmem ▸ hm
    have hcounted : TimersKept s { s.setObject n fun o => freeSyncObject o.generation with
        activeObjectCount := (s.setObject n fun o =>
          freeSyncObject o.generation).activeObjectCount - 1 } :=
      hfreed.trans (.of_eq hfreed.sound rfl rfl rfl)
    have hdiscard := hcounted.trans (discardSyncMetadata_kept hcounted.sound hempty)
    generalize discardSyncMetadata _ = r at hdiscard ⊢
    obtain ⟨_ | _, s₁⟩ := r
    · exact hdiscard.trans (.corrupted hdiscard.sound)
    · exact hdiscard
  split_ifs
  · exact hfreed.trans (.of_eq hfreed.sound rfl rfl rfl)
  · exact hfreed.trans (.of_eq hfreed.sound rfl rfl rfl)

theorem TakenOff.armedFor (ht : TakenOff s s' n) (m : ℕ) :
    s'.armedFor m = if m = n then none else s.armedFor m := by
  unfold SyncState.armedFor
  split_ifs with h1 h2 h3 h4 h5
  · exact absurd (h2 ▸ h1) ht.notMem
  · exact congrArg some (ht.taken.cycles m h2)
  · exact absurd ((ht.taken.mem m).1 h1).1 h3
  · rfl
  · exact absurd ((ht.taken.mem m).2 ⟨h5, h4⟩) h1
  · rfl

theorem closeObject_kept (hs : SyncSound s) (h : TimerSound s) (wakeResult : ℕ) :
    TimersKept s (closeObject s n wakeResult).2.1 := by
  unfold closeObject
  split
  · exact .refl h
  rename_i hargs
  split
  · exact .refl h
  split
  · exact .refl h
  rename_i hl
  simp only [not_or, not_not] at hargs hl
  obtain ⟨r, hr, hrem, hpool⟩ : ∃ r, (if (s.object n).type = .timer then timerRemove s n
      else (true, s)) = (true, r) ∧ TakenOff s r n ∧ r.pool = s.pool := by
    split_ifs with ht
    · obtain ⟨r, hr, hrem⟩ := timerRemove_sound h hargs.1
      have hpool := (timerRemove_step s n).pool
      rw [hr] at hpool
      exact ⟨r, hr, hrem, hpool⟩
    · have hn := h.notMem (n := n) (.inr (.inl ht))
      exact ⟨s, rfl, ⟨.refl s, .of_notMem h.shape hn, h.order, fun _ => rfl⟩, rfl⟩
  rw [hr]
  dsimp only
  rw [if_neg (by simp)]
  obtain ⟨p, woken, he, -⟩ := wakeAll_waits (hpool.symm ▸ hs.healthy) (syncQueue n) wakeResult
  have hclosed : TimersKept s (r.setObject n fun o => { o with
      state := .closing
      closeResult := wakeResult }) := by
    have hself : ∀ m, ((r.setObject n fun o => { o with
        state := .closing
        closeResult := wakeResult }).object m).state = .live → m ≠ n := by
      rintro m hm rfl
      simp [SyncState.setObject] at hm
    have hother : ∀ m, m ≠ n → (r.setObject n fun o => { o with
        state := .closing
        closeResult := wakeResult }).object m = r.object m := fun m hm => update_of_ne hm _ _
    refine ⟨(hrem.sound h).setObject (fun hlive => ?_) rfl (fun hm => absurd hm hrem.notMem),
      fun m hm => ?_, fun m hm => ?_, fun m hm => ?_⟩
    · simp at hlive
    · rwa [hother m (hself m hm), hrem.step.state] at hm
    · have hne := hself m hm
      have harmed := hrem.armedFor m
      rw [if_neg hne] at harmed
      rw [← harmed, SyncState.armedFor, SyncState.armedFor, hother m hne]
      rfl
    · rw [SyncState.Fired, SyncState.Fired, hother m (hself m hm), hrem.step.state, hrem.step.type,
        hrem.step.count]
  have he' : kernelThreadWakeAll (r.setObject n fun o => { o with
      state := .closing
      closeResult := wakeResult }).pool (syncQueue n) wakeResult = ((.ok, p), woken) := he
  rw [he']
  dsimp only
  have hreferences : (((r.setObject n fun o => { o with
      state := .closing
      closeResult := wakeResult }).withPool p).object n).references ≠ 0 := by
    have := hrem.step.references n
    simpa [SyncState.setObject, SyncState.withPool, this] using hl.2.2.2.2.2.1
  rw [if_neg hreferences]
  exact hclosed.trans (.withPool hclosed.sound p)

theorem releaseLast_kept (hs : SyncSound s) (h : TimerSound s)
    (hc : (s.object n).state = .closing) : TimersKept s (releaseLast s n) := by
  have hzero : TimersKept s (s.setObject n fun o => { o with references := 0 }) := by
    refine .setSame h rfl rfl rfl rfl (fun _ => rfl) fun hl => ?_
    simp [hc] at hl
  have hsound : SyncSound (s.setObject n fun o => { o with references := 0 }) :=
    (hs.setObject ⟨rfl, rfl, rfl, rfl, rfl⟩).sound
  refine hzero.trans (freeObject_kept hsound hzero.sound ?_)
  simp [SyncState.setObject, hc]

theorem kernelSyncHandleRelease_kept (hs : SyncSound s) (h : TimerSound s) (n : ℕ) :
    TimersKept s (kernelSyncHandleRelease s n) := by
  unfold kernelSyncHandleRelease
  split
  · exact .corrupted h
  rename_i hbad
  push Not at hbad
  split
  · refine .setSame h rfl rfl rfl rfl (fun _ => rfl) fun hl => ?_
    obtain ⟨h1, h2, h3, -, h5⟩ := h.opened n hl
    exact ⟨h1, h2, h3, by dsimp only; omega, h5⟩
  split
  · have hq := closeObject_quiet hs hbad.2.2 astraSyscallClosed
    have hk := closeObject_kept (n := n) hs h astraSyscallClosed
    generalize closeObject s n astraSyscallClosed = r at hq hk
    obtain ⟨status, s₁, woken⟩ := r
    have hbroken : TimersKept s s₁.corrupted := hk.trans (.corrupted hk.sound)
    cases status
    case ok =>
      dsimp only
      split_ifs with hgone
      · exact hbroken
      · push Not at hgone
        exact hk.trans (releaseLast_kept hq.sound hk.sound hgone.2.2)
    all_goals exact hbroken
  · rename_i hl
    refine releaseLast_kept hs h ?_
    cases hstate : (s.object n).state with
    | free => exact absurd hstate hbad.2.2
    | live => exact absurd hstate hl
    | closing => rfl

theorem ownerDiedSlots_kept (owner wakeResult : ℕ) : ∀ (slots : List ℕ) {s : SyncState}
    (closed woken : ℕ), SyncSound s → TimerSound s →
      TimersKept s (ownerDiedSlots owner wakeResult s slots closed woken).2.1
  | [], _, _, _, _, h => .refl h
  | n :: slots, s, closed, woken, hs, h => by
    unfold ownerDiedSlots
    split
    · exact ownerDiedSlots_kept owner wakeResult slots _ _ hs h
    rename_i hskip
    push Not at hskip
    have hq := closeObject_quiet hs (n := n) (by simp [hskip.1]) wakeResult
    have hk := closeObject_kept (n := n) hs h wakeResult
    generalize closeObject s n wakeResult = r at hq hk
    obtain ⟨status, s₁, objectWoken⟩ := r
    cases status
    case ok => exact hk.trans (ownerDiedSlots_kept owner wakeResult slots _ _ hq.sound hk.sound)
    all_goals exact hk

/-! ## Waits, signals and references -/

section

variable (h : TimerSound s)
include h

theorem kernelSyncRetain_kept (n : ℕ) : TimersKept s (kernelSyncRetain s n).2 := by
  unfold kernelSyncRetain
  split
  · exact .refl h
  split
  · exact .refl h
  · refine .setSame (f := fun o => { o with references := o.references + 1 }) h rfl rfl rfl rfl
      (fun _ => rfl) fun hl => ?_
    obtain ⟨h1, h2, h3, -, h5⟩ := h.opened n hl
    exact ⟨h1, h2, h3, Nat.succ_ne_zero _, h5⟩

theorem TimersKept.setCount (ht : (s.object n).type ≠ .timer) (c : ℕ) :
    TimersKept s (s.setObject n fun o => { o with count := c }) :=
  .setSame h rfl rfl rfl rfl (fun h1 => absurd h1 ht) (h.opened n)

theorem kernelSyncPrepareWait_kept (n : ℕ) : TimersKept s (kernelSyncPrepareWait s n).2.1 := by
  unfold kernelSyncPrepareWait
  dsimp only
  split_ifs with _ _ _ _ ht
  all_goals first | exact .refl h | exact TimersKept.setCount h ht.2 _

theorem kernelSyncReset_kept (n : ℕ) : TimersKept s (kernelSyncReset s n).2 := by
  unfold kernelSyncReset
  split
  · exact .refl h
  split
  · exact .refl h
  split
  · exact .refl h
  split
  · exact .refl h
  rename_i ht
  refine .setCount h (fun h1 => ht ?_) 0
  simp [h1]

theorem waitProbes_kept : ∀ (members : List WaitMember) (index : ℕ)
    (specs : List KernelThreadWaitSpec), TimersKept s (waitProbes s index specs members).2 := by
  intro members
  induction members with
  | nil => exact fun _ _ => .refl h
  | cons member members ih =>
    intro index specs
    cases member with
    | sync n =>
      unfold waitProbes
      have hk := kernelSyncPrepareWait_kept h n
      have hblocked : (kernelSyncPrepareWait s n).1 = .blocked →
          (kernelSyncPrepareWait s n).2.1 = s := by
        unfold kernelSyncPrepareWait
        dsimp only
        split_ifs <;> simp
      generalize kernelSyncPrepareWait s n = r at hk hblocked
      obtain ⟨status, s₁, spec⟩ := r
      cases status
      case blocked =>
        obtain rfl := hblocked rfl
        exact ih _ _
      all_goals exact hk
    | pending spec => exact ih _ _
    | ready => exact .refl h

theorem kernelSyncWait_kept (n : ℕ) (t : Slot) (now deadline timeoutResult : ℕ)
    (rowMemory heapMemory : Bool) : TimersKept s
      (kernelSyncWait s n t now deadline timeoutResult rowMemory heapMemory).2 := by
  unfold kernelSyncWait
  split
  · exact .refl h
  have hk := kernelSyncPrepareWait_kept h n
  generalize kernelSyncPrepareWait s n = r at hk
  obtain ⟨status, s₁, spec⟩ := r
  cases status
  case blocked =>
    dsimp only
    generalize kernelThreadBlockUntil s₁.pool t spec.queue spec.sequence now deadline timeoutResult
      rowMemory heapMemory = r
    obtain ⟨status, p⟩ := r
    cases status <;> exact hk.trans (.withPool hk.sound p)
  all_goals exact hk

theorem waitHandleSet_kept (t : Slot) (members : List WaitMember)
    (multiple : Bool) (now deadline : ℕ) (rowMemory heapMemory : Bool) : TimersKept s
      (waitHandleSet s t members multiple now deadline rowMemory heapMemory).2.2 := by
  unfold waitHandleSet
  have hk := waitProbes_kept h members 0 []
  generalize waitProbes s 0 [] members = r at hk
  obtain ⟨probe, s₁⟩ := r
  have hout : ∀ index, TimersKept s
      (if multiple then s₁.withPool (setWaitOutputs s₁.pool t true index 0) else s₁) := by
    intro index
    split_ifs
    · exact hk.trans (.withPool hk.sound _)
    · exact hk
  cases probe with
  | specs specs => exact hk.trans (.withPool hk.sound _)
  | satisfied index => exact hout index
  | closed index => exact hout index
  | refused status => exact hk

theorem kernelSyncSignal_kept (n releaseCount wakeResult : ℕ) :
    TimersKept s (kernelSyncSignal s n releaseCount wakeResult).2.1 := by
  unfold kernelSyncSignal
  split
  · exact .refl h
  split
  · exact .refl h
  split
  · exact .refl h
  have hcount : ∀ (p : Pool) (c : ℕ), (s.object n).type ≠ .timer →
      TimersKept s ((s.withPool p).setObject n fun o => { o with count := c }) := fun p c ht =>
    (TimersKept.withPool h p).trans (.setCount (h.withPool p) ht c)
  cases ht : (s.object n).type with
  | none => exact .refl h
  | timer => exact .refl h
  | semaphore =>
    unfold signalSemaphore
    dsimp only
    generalize signalWakes (syncQueue n) wakeResult (min releaseCount
      (kernelThreadWaitQueueWaiterCount s.pool (syncQueue n))) s.pool 0 = r
    obtain ⟨woke, p, woken⟩ := r
    split_ifs
    · exact .refl h
    · exact .refl h
    · cases woke
      · exact .withPool h p
      · exact hcount p _ (by simp [ht])
  | eventAuto =>
    unfold signalEventAuto
    generalize kernelThreadWakeOne s.pool (syncQueue n) wakeResult = r
    obtain ⟨⟨status, p⟩, woken⟩ := r
    split_ifs
    · exact .refl h
    · cases status <;> cases woken <;>
        first | exact .withPool h p | exact hcount p _ (by simp [ht])
  | eventManual =>
    unfold signalEventManual
    dsimp only
    generalize kernelThreadWakeAll (s.setObject n fun o => { o with count := 1 }).pool
      (syncQueue n) wakeResult = r
    obtain ⟨⟨status, p⟩, woken⟩ := r
    have hset := TimersKept.setCount (n := n) h (by simp [ht]) 1
    split_ifs
    · exact .refl h
    · cases status <;> exact hset.trans (.withPool hset.sound p)

end

end

end Astra
