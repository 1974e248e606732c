import AstraKernel.Proofs.SyncTimerCalls

/-!
# Runs of the timers

In every run the heap has the timers that are armed, in order, and no timer is armed and fired. A
timer is armed for what it was last set to, until it is cancelled, closed or expires; an expiry
fires those whose deadline has come, and no others. Only a set that is refused for want of a frame
may change one: a fired timer is then neither fired nor armed.
-/

namespace Astra

open Function List

/-- To set the timer, which has fired, takes a new leaf of the heap, and is refused it. -/
def LosesFired (s : SyncState) (n now deadline : ℕ) (memory : Bool) : Prop :=
  s.Fired n ∧ now < deadline ∧ memory = false ∧
    s.timerHeapDirectory (s.timerHeap.length / timerHeapLeafEntries) = false

structure TimerSetTo (s s' : SyncState) (n : ℕ) (deadline : Option ℕ) (fired : Prop) : Prop where
  sound : TimerSound s'
  armed : ∀ m, s'.armedFor m = if m = n then deadline else s.armedFor m
  fired : ∀ m, s'.Fired m ↔ if m = n then fired else s.Fired m

structure TimersExpired (s s' : SyncState) (now : ℕ) : Prop where
  sound : TimerSound s'
  armed : ∀ m, s'.armedFor m = (s.armedFor m).filter fun deadline => now < deadline
  fired : ∀ m, s'.Fired m ↔ s.Fired m ∨ ∃ deadline ∈ s.armedFor m, deadline ≤ now
  next : ∀ deadline ∈ kernelSyncNextTimerDeadline s', now < deadline

section

variable {s s' s₁ : SyncState} {n m : ℕ}

/-! ## One timer -/

theorem TakenOff.setTo (ht : TakenOff s s₁ n) (h : TimerSound s) (hl : (s.object n).state = .live)
    (htype : (s.object n).type = .timer) (c : ℕ) (p : Pool) :
    TimerSetTo s ((s₁.setObject n fun o => { o with count := c }).withPool p) n none (c ≠ 0) := by
  have h₁ := ht.sound h
  have hsound : TimerSound (s₁.setObject n fun o => { o with count := c }) :=
    h₁.setObject (h₁.opened n) rfl fun hm => absurd hm ht.notMem
  have hother : ∀ m, m ≠ n →
      ((s₁.setObject n fun o => { o with count := c }).withPool p).object m = s₁.object m :=
    fun m hm => update_of_ne hm _ _
  refine ⟨hsound.withPool p, fun m => ?_, fun m => ?_⟩
  · rw [← ht.armedFor m]
    rcases eq_or_ne m n with rfl | hne
    · rw [armedFor_of_notMem ht.notMem]
      exact armedFor_of_notMem ht.notMem
    · rw [SyncState.armedFor, SyncState.armedFor, hother m hne]
      rfl
  · rcases eq_or_ne m n with rfl | hne
    · rw [if_pos rfl, SyncState.Fired]
      simp [SyncState.setObject, SyncState.withPool, ht.step.state, ht.step.type, hl, htype]
    · rw [if_neg hne, SyncState.Fired, SyncState.Fired, hother m hne, ht.step.state, ht.step.type,
        ht.step.count]

theorem PutIn.armedFor {deadline : ℕ} (hp : PutIn s s' n deadline) (m : ℕ) :
    s'.armedFor m = if m = n then some deadline else s.armedFor m := by
  have hmem : m ∈ s'.timerHeap ↔ m ∈ s.timerHeap ∨ m = n := by
    rw [hp.perm.mem_iff, mem_append, mem_singleton]
  have hcycles : (s'.object m).deadline = update s.timers.deadlineCycles n deadline m :=
    congrFun hp.cycles m
  unfold SyncState.armedFor
  rw [hcycles]
  rcases eq_or_ne m n with rfl | hne
  · rw [if_pos (hmem.2 (.inr rfl)), if_pos rfl, update_self]
  · rw [if_neg hne, update_of_ne hne]
    have : m ∈ s'.timerHeap ↔ m ∈ s.timerHeap := hmem.trans (or_iff_left hne)
    simp only [this]
    rfl

theorem setObject_setObject (s : SyncState) (n : ℕ) (f g : KernelSyncObject → KernelSyncObject) :
    (s.setObject n f).setObject n g = s.setObject n fun o => g (f o) := by
  unfold SyncState.setObject
  simp

theorem kernelSyncTimerSet_spec (hs : SyncSound s) (h : TimerSound s) (n now deadline : ℕ)
    (memory : Bool) :
    ((kernelSyncTimerSet s n now deadline memory).1 ≠ .ok ∧
        (kernelSyncTimerSet s n now deadline memory).2.1 = s ∧
        ¬((s.object n).state = .live ∧ (s.object n).type = .timer)) ∨
      (kernelSyncTimerSet s n now deadline memory = (.noSlot,
          s.setObject n fun o => { o with count := 0 }, 0) ∧ now < deadline ∧ memory = false ∧
        s.timerHeapDirectory (s.timerHeap.length / timerHeapLeafEntries) = false ∧
        (s.object n).state = .live ∧ (s.object n).type = .timer ∧ n ∉ s.timerHeap) ∨
      ((kernelSyncTimerSet s n now deadline memory).1 = .ok ∧
        (now < deadline → memory = false →
          s.timerHeapDirectory (s.timerHeap.length / timerHeapLeafEntries) = false →
            n ∈ s.timerHeap) ∧
        TimerSetTo s (kernelSyncTimerSet s n now deadline memory).2.1 n
          (if deadline ≤ now then none else some deadline) (deadline ≤ now)) := by
  unfold kernelSyncTimerSet
  split
  · rename_i hv
    exact .inl ⟨by simp, rfl, fun h1 => hv (hs.backed n (by simp [h1.1]))⟩
  rename_i hv
  split
  · rename_i hc
    exact .inl ⟨by simp, rfl, by simp [hc]⟩
  split
  · rename_i hl
    exact .inl ⟨by simp, rfl, fun h1 => hl (h.valid hs h1.1 h1.2)⟩
  rename_i hl
  split
  · rename_i ht
    exact .inl ⟨by simp, rfl, fun h1 => ht h1.2⟩
  rename_i ht
  rw [not_not] at hv hl ht
  have hlive : (s.object n).state = .live := hl.2.1
  obtain ⟨s₁, hrem, htaken⟩ := timerRemove_sound h hv
  have hq := (timerRemove_step s n).quiet hs
  obtain ⟨hl₁, ht₁⟩ := timerRemove_live s hlive ht
  rw [hrem] at hq hl₁ ht₁ ⊢
  dsimp only at hq hl₁ ht₁ ⊢
  have hz := hq.trans (hq.sound.timerClear hl₁ ht₁)
  right
  by_cases hnow : deadline ≤ now
  · rw [if_pos hnow]
    obtain ⟨p, woken, he, -⟩ := hz.sound.timerWake (n := n) (c := 1)
      (by simpa [SyncState.setObject] using hl₁) (by simpa [SyncState.setObject] using ht₁) le_rfl
      astraSyscallOk
    rw [he, setObject_setObject, if_pos hnow]
    refine .inr ⟨rfl, fun h1 => absurd hnow (by omega), ?_⟩
    have hset := htaken.setTo h hlive ht 1 p
    simpa [hnow] using hset
  · rw [if_neg hnow]
    have hcleared : TimerSetTo s (s₁.setObject n fun o => { o with count := 0 }) n none (0 ≠ 0) :=
      htaken.setTo h hlive ht 0 s₁.pool
    have hroom : s₁.timerHeap.length < kernelSyncObjectMax :=
      (htaken.sound h).room hq.sound hv.1 htaken.notMem
    have hv₁ : validObjectPointer (s₁.setObject n fun o => { o with count := 0 }) n :=
      hz.sound.backed n (by simp [SyncState.setObject, hl₁])
    rcases timerInsert_sound hcleared.sound hv₁ htaken.notMem hroom deadline memory with
      ⟨hleaf, hmemory, he⟩ | ⟨s₂, he, hput, hgranted⟩
    · -- the leaf of a timer that was armed is still there
      have hn : n ∉ s.timerHeap := fun hm => by
        have hlt : s₁.timerHeap.length < s.timerHeap.length := htaken.taken.length_lt hm
        have := htaken.step.leaf _ (h.leaf _ hlt)
        exact absurd hleaf (by simpa [SyncState.setObject] using this)
      obtain rfl := htaken.same hn
      exact .inl ⟨by rw [he], by omega, hmemory,
        hleaf, hlive, ht, hn⟩
    · rw [he]
      refine .inr ⟨rfl, fun _ hmemory hleaf => ?_, ?_, fun m => ?_, fun m => ?_⟩
      · by_contra hn
        obtain rfl := htaken.same hn
        exact hgranted ⟨hleaf, hmemory⟩
      · refine hput.sound hcleared.sound ?_ ?_ ?_ <;> simp [SyncState.setObject, hl₁, ht₁]
      · rw [if_neg hnow, hput.armedFor m, hcleared.armed m]
        split_ifs <;> rfl
      · have hfired := hcleared.fired m
        rw [SyncState.Fired, hput.step.state, hput.step.type, hput.step.count]
        refine hfired.trans ?_
        simp [hnow]

theorem kernelSyncTimerCancel_spec (hs : SyncSound s) (h : TimerSound s) (n wakeResult : ℕ) :
    ((kernelSyncTimerCancel s n wakeResult).1 ≠ .ok ∧
        (kernelSyncTimerCancel s n wakeResult).2.1 = s) ∨
      ((kernelSyncTimerCancel s n wakeResult).1 = .ok ∧
        TimerSetTo s (kernelSyncTimerCancel s n wakeResult).2.1 n none False) := by
  unfold kernelSyncTimerCancel
  split
  · exact .inl ⟨by simp, rfl⟩
  rename_i hv
  split
  · exact .inl ⟨by simp, rfl⟩
  split
  · exact .inl ⟨by simp, rfl⟩
  rename_i hl
  split
  · exact .inl ⟨by simp, rfl⟩
  rename_i ht
  simp only [not_or, not_not] at hv hl ht
  have hlive : (s.object n).state = .live := hl.2.1
  obtain ⟨s₁, hrem, htaken⟩ := timerRemove_sound h hv.2
  have hq := (timerRemove_step s n).quiet hs
  obtain ⟨hl₁, ht₁⟩ := timerRemove_live s hlive ht
  rw [hrem] at hq hl₁ ht₁ ⊢
  dsimp only at hq hl₁ ht₁ ⊢
  obtain ⟨p, woken, he, -⟩ := hq.sound.timerWake hl₁ ht₁ (Nat.zero_le 1) wakeResult
  rw [he]
  have hset := htaken.setTo h hlive ht 0 p
  exact .inr ⟨rfl, by simpa using hset⟩

/-! ## Expiring -/

theorem TimersExpired.cons {now deadline : ℕ} (h : TimerSetTo s s₁ n none True)
    (hdue : s.armedFor n = some deadline) (hnow : deadline ≤ now) (h' : TimersExpired s₁ s' now) :
    TimersExpired s s' now where
  sound := h'.sound
  armed m := by
    rw [h'.armed m, h.armed m]
    split_ifs with hm
    · subst hm
      rw [hdue, Option.filter_some, if_neg (by simpa using hnow), Option.filter_none]
    · rfl
  fired m := by
    rw [h'.fired m, h.fired m, h.armed m]
    split_ifs with hm
    · subst hm
      exact iff_of_true (.inl trivial) (.inr ⟨deadline, hdue, hnow⟩)
    · rfl
  next := h'.next

theorem expireTimers_sound (now : ℕ) : ∀ (fuel : ℕ) {s : SyncState} (expired woken : ℕ),
    SyncSound s → TimerSound s → s.timerHeap.length ≤ fuel →
      (expireTimers now fuel s expired woken).1 = .ok ∧
        TimersExpired s (expireTimers now fuel s expired woken).2.1 now := by
  intro fuel
  induction fuel with
  | zero =>
    intro s expired woken hs h hle
    have hempty : s.timerHeap = [] := length_eq_zero_iff.1 (Nat.le_zero.1 hle)
    unfold expireTimers
    rw [hempty]
    refine ⟨rfl, h, fun m => ?_, fun m => ?_, fun deadline hd => ?_⟩
    · simp [SyncState.armedFor, hempty]
    · simp [SyncState.armedFor, hempty]
    · simp [kernelSyncNextTimerDeadline, hempty] at hd
  | succ fuel ih =>
    intro s expired woken hs h hle
    unfold expireTimers
    rcases hhead : s.timerHeap.head? with _ | n
    · have hempty : s.timerHeap = [] := List.head?_eq_none_iff.1 hhead
      refine ⟨rfl, h, fun m => ?_, fun m => ?_, fun deadline hd => ?_⟩
      · simp [SyncState.armedFor, hempty]
      · simp [SyncState.armedFor, hempty]
      · simp [kernelSyncNextTimerDeadline, hempty] at hd
    have hmem : n ∈ s.timerHeap := mem_of_head? hhead
    obtain ⟨hl, ht, hcount⟩ := h.armed n hmem
    have hv : validObjectPointer s n := hs.backed n (by simp [hl])
    dsimp only
    by_cases hlater : now < (s.object n).deadline
    · -- the root comes first, so no timer is due
      rw [if_pos (.inr hlater)]
      have hnone : ∀ m ∈ s.timerHeap, now < (s.object m).deadline := fun m hm =>
        hlater.trans_le (h.order.head_le hhead hm)
      refine ⟨rfl, h, fun m => ?_, fun m => ?_, fun deadline hd => ?_⟩
      · unfold SyncState.armedFor
        split_ifs with hm
        · rw [Option.filter_some, if_pos (by simpa using hnone m hm)]
        · rfl
      · refine (or_iff_left ?_).symm
        rintro ⟨deadline, hd, hdue⟩
        unfold SyncState.armedFor at hd
        split_ifs at hd with hm
        · have := hnone m hm
          have := Option.some.inj hd
          omega
        · simp at hd
      · unfold kernelSyncNextTimerDeadline at hd
        rw [hhead] at hd
        obtain rfl : (s.object n).deadline = deadline := Option.some.inj hd
        exact hlater
    · rw [if_neg (by rw [not_or, not_not]; exact ⟨hv, hlater⟩)]
      have hvalid := h.valid hs hl ht
      rw [if_neg (by simp only [not_or, not_not]; exact ⟨hvalid, ht, hcount⟩)]
      obtain ⟨s₁, hrem, htaken⟩ := timerRemove_sound h hv
      have hq := (timerRemove_step s n).quiet hs
      obtain ⟨hl₁, ht₁⟩ := timerRemove_live s hl ht
      rw [hrem] at hq hl₁ ht₁ ⊢
      dsimp only at hq hl₁ ht₁ ⊢
      obtain ⟨p, objectWoken, he, hwoke⟩ := hq.sound.timerWake hl₁ ht₁ le_rfl astraSyscallOk
      rw [he]
      have hset := htaken.setTo h hl ht 1 p
      have hshorter : s₁.timerHeap.length < s.timerHeap.length := htaken.taken.length_lt hmem
      obtain ⟨hok, hexpired⟩ := ih (expired + 1) (woken + objectWoken) (hq.trans hwoke).sound
        hset.sound (by change s₁.timerHeap.length ≤ fuel; omega)
      exact ⟨hok, .cons (by simpa using hset) (if_pos hmem) (by omega) hexpired⟩

theorem kernelSyncExpireTimers_sound (hs : SyncSound s) (h : TimerSound s) (now : ℕ) :
    (kernelSyncExpireTimers s now).1 = .ok ∧
      TimersExpired s (kernelSyncExpireTimers s now).2.1 now :=
  expireTimers_sound now _ 0 0 hs h le_rfl

/-! ## Runs -/

/-- The deadline a timer is armed for after an event, if it is still open. -/
def SyncState.armedNext (s : SyncState) (m : ℕ) : SyncEvent → Option ℕ
  | .timerSet n now deadline memory =>
    if m = n ∧ (kernelSyncTimerSet s n now deadline memory).1 = .ok then
      if deadline ≤ now then none else some deadline
    else s.armedFor m
  | .timerCancel n wakeResult =>
    if m = n ∧ (kernelSyncTimerCancel s n wakeResult).1 = .ok then none else s.armedFor m
  | .expireTimers now => (s.armedFor m).filter fun deadline => now < deadline
  | _ => s.armedFor m

/-- Whether a timer has fired after an event, if it is still open. -/
def SyncState.firedNext (s : SyncState) (m : ℕ) : SyncEvent → Prop
  | .timerSet n now deadline memory =>
    if m = n ∧ (kernelSyncTimerSet s n now deadline memory).1 = .ok then deadline ≤ now
    else s.Fired m ∧ ¬(m = n ∧ LosesFired s n now deadline memory)
  | .timerCancel n wakeResult =>
    if m = n ∧ (kernelSyncTimerCancel s n wakeResult).1 = .ok then False else s.Fired m
  | .expireTimers now => s.Fired m ∨ ∃ deadline ∈ s.armedFor m, deadline ≤ now
  | _ => s.Fired m

/-- An event has armed, disarmed and fired the timers that are open after it as it is to. -/
structure TimersFollow (s : SyncState) (ev : SyncEvent) : Prop where
  sound : TimerSound (s.step ev)
  armed : ∀ m, ((s.step ev).object m).state = .live →
    (s.step ev).armedFor m = s.armedNext m ev
  fired : ∀ m, ((s.step ev).object m).state = .live →
    ((s.step ev).Fired m ↔ s.firedNext m ev)

theorem TimersCreated.follow {ev : SyncEvent} (h : TimersCreated s (s.step ev))
    (harmed : ∀ m, s.armedNext m ev = s.armedFor m)
    (hfired : ∀ m, s.firedNext m ev = s.Fired m) : TimersFollow s ev :=
  ⟨h.sound, fun m hm => (h.armed m hm).trans (harmed m).symm,
    fun m hm => (h.fired m hm).trans (hfired m ▸ Iff.rfl)⟩

theorem timerSet_follow (hs : SyncSound s) (h : TimerSound s) (n now deadline : ℕ)
    (memory : Bool) : TimersFollow s (.timerSet n now deadline memory) := by
  rcases kernelSyncTimerSet_spec hs h n now deadline memory with
    ⟨hne, he, hn⟩ | ⟨he, hnow, hmemory, hleaf, hl, ht, hn⟩ | ⟨hok, hgranted, hset⟩
  · have hstep : s.step (.timerSet n now deadline memory) = s := he
    refine ⟨by rwa [hstep], fun m _ => ?_, fun m _ => ?_⟩
    · rw [hstep, SyncState.armedNext, if_neg fun h1 => hne h1.2]
    · rw [hstep, SyncState.firedNext, if_neg fun h1 => hne h1.2, and_iff_left]
      exact fun h1 => hn ⟨h1.2.1.1, h1.2.1.2.1⟩
  · have hstep : s.step (.timerSet n now deadline memory) =
        s.setObject n fun o => { o with count := 0 } := congrArg (fun r => r.2.1) he
    have hother : ∀ m, m ≠ n → (s.setObject n fun o => { o with count := 0 }).object m =
        s.object m := fun m hm => update_of_ne hm _ _
    have hne : (kernelSyncTimerSet s n now deadline memory).1 ≠ .ok := by
      rw [he]
      simp
    refine ⟨hstep ▸ h.setObject (h.opened n) rfl fun hm => absurd hm hn, fun m _ => ?_,
      fun m _ => ?_⟩
    · rw [hstep, SyncState.armedNext, if_neg fun h1 => hne h1.2]
      rcases eq_or_ne m n with rfl | hmn
      · rw [armedFor_of_notMem hn]
        exact armedFor_of_notMem hn
      · rw [SyncState.armedFor, SyncState.armedFor, hother m hmn]
        rfl
    · rw [hstep, SyncState.firedNext, if_neg fun h1 => hne h1.2]
      rcases eq_or_ne m n with rfl | hmn
      · refine iff_of_false (fun hfired => ?_) fun hlost =>
          hlost.2 ⟨rfl, hlost.1, hnow, hmemory, hleaf⟩
        have hcount := hfired.2.2
        simp [SyncState.setObject] at hcount
      · rw [and_iff_left fun h1 => hmn h1.1, SyncState.Fired, SyncState.Fired, hother m hmn]
  · refine ⟨hset.sound, fun m _ => ?_, fun m _ => ?_⟩
    · refine (hset.armed m).trans ?_
      simp [SyncState.armedNext, hok]
    · refine (hset.fired m).trans ?_
      rcases eq_or_ne m n with rfl | hmn
      · simp [SyncState.firedNext, hok]
      · simp [SyncState.firedNext, hmn]

theorem timerCancel_follow (hs : SyncSound s) (h : TimerSound s) (n wakeResult : ℕ) :
    TimersFollow s (.timerCancel n wakeResult) := by
  rcases kernelSyncTimerCancel_spec hs h n wakeResult with ⟨hne, he⟩ | ⟨hok, hset⟩
  · have hstep : s.step (.timerCancel n wakeResult) = s := he
    refine ⟨by rwa [hstep], fun m _ => ?_, fun m _ => ?_⟩
    · rw [hstep, SyncState.armedNext, if_neg fun h1 => hne h1.2]
    · rw [hstep, SyncState.firedNext, if_neg fun h1 => hne h1.2]
  · refine ⟨hset.sound, fun m _ => ?_, fun m _ => ?_⟩
    · refine (hset.armed m).trans ?_
      simp [SyncState.armedNext, hok]
    · refine (hset.fired m).trans ?_
      simp [SyncState.firedNext, hok]

theorem step_follow (hs : SyncSound s) (h : TimerSound s) (ev : SyncEvent) : TimersFollow s ev := by
  have hcreated : ∀ {ev}, TimersCreated s (s.step ev) →
      (∀ m, s.armedNext m ev = s.armedFor m) → (∀ m, s.firedNext m ev = s.Fired m) →
      TimersFollow s ev := fun hk => hk.follow
  have hkept : ∀ {ev}, TimersKept s (s.step ev) → (∀ m, s.armedNext m ev = s.armedFor m) →
      (∀ m, s.firedNext m ev = s.Fired m) → TimersFollow s ev := fun hk => hk.created.follow
  cases ev with
  | thread op => exact hkept (.withPool h _) (fun _ => rfl) fun _ => rfl
  | createEvent owner flags grant =>
    refine hcreated ?_ (fun _ => rfl) fun _ => rfl
    show TimersCreated s (kernelSyncCreateEvent s owner flags grant).2.1
    unfold kernelSyncCreateEvent
    split
    · exact (TimersKept.refl h).created
    refine create_timers hs h owner
      (if flags &&& kernelSyncEventManualReset ≠ 0 then .eventManual else .eventAuto) grant
      (f := fun o => { o with
        count := if flags &&& kernelSyncEventInitiallySignaled ≠ 0 then 1 else 0
        maximum := 1 }) (fun _ h1 => ?_) fun _ => rfl
    split_ifs at h1
  | createSemaphore owner initialCount maximumCount grant =>
    refine hcreated ?_ (fun _ => rfl) fun _ => rfl
    show TimersCreated s (kernelSyncCreateSemaphore s owner initialCount maximumCount grant).2.1
    unfold kernelSyncCreateSemaphore
    split_ifs
    · exact (TimersKept.refl h).created
    · exact create_timers hs h owner .semaphore grant (f := fun o => { o with
        count := initialCount
        maximum := maximumCount }) (fun _ h1 => by simp at h1) fun _ => rfl
  | createTimer owner grant =>
    exact hcreated (create_timers hs h owner .timer grant (f := fun o => { o with maximum := 1 })
      (fun _ _ => rfl) fun _ => rfl) (fun _ => rfl) fun _ => rfl
  | retain n => exact hkept (kernelSyncRetain_kept h n) (fun _ => rfl) fun _ => rfl
  | release n => exact hkept (kernelSyncHandleRelease_kept hs h n) (fun _ => rfl) fun _ => rfl
  | wait n t now deadline timeoutResult rowMemory heapMemory =>
    exact hkept (kernelSyncWait_kept h n t now deadline timeoutResult rowMemory heapMemory)
      (fun _ => rfl) fun _ => rfl
  | waitSet t members multiple now deadline rowMemory heapMemory =>
    exact hkept (waitHandleSet_kept h t members multiple now deadline rowMemory heapMemory)
      (fun _ => rfl) fun _ => rfl
  | signal n releaseCount wakeResult =>
    exact hkept (kernelSyncSignal_kept h n releaseCount wakeResult) (fun _ => rfl) fun _ => rfl
  | reset n => exact hkept (kernelSyncReset_kept h n) (fun _ => rfl) fun _ => rfl
  | timerSet n now deadline memory => exact timerSet_follow hs h n now deadline memory
  | timerCancel n wakeResult => exact timerCancel_follow hs h n wakeResult
  | expireTimers now =>
    obtain ⟨-, hexpired⟩ := kernelSyncExpireTimers_sound hs h now
    exact ⟨hexpired.sound, fun m _ => hexpired.armed m, fun m _ => hexpired.fired m⟩
  | ownerDied owner wakeResult =>
    refine hkept ?_ (fun _ => rfl) fun _ => rfl
    show TimersKept s (kernelSyncOwnerDied s owner wakeResult).2.1
    unfold kernelSyncOwnerDied
    split_ifs
    · exact .refl h
    · exact ownerDiedSlots_kept owner wakeResult _ 0 0 hs h

theorem timerSound_init (audit : Bool) :
    TimerSound (kernelSyncPoolInit (kernelThreadPoolInit audit)) := by
  refine ⟨fun n i => ?_, fun i _ hi => ?_, fun n hn => ?_, fun i hi => ?_, fun n hn => ?_⟩
  · simp [SyncState.timers, kernelSyncPoolInit, freeSyncObject]
  · simp [SyncState.timers, kernelSyncPoolInit] at hi
  · simp [kernelSyncPoolInit] at hn
  · simp [kernelSyncPoolInit] at hi
  · simp [kernelSyncPoolInit, freeSyncObject] at hn

theorem syncRun_timers : ∀ (evs : List SyncEvent) {s : SyncState}, SyncSound s → TimerSound s →
    s.Along SyncSane evs → SyncSound (s.run evs) ∧ TimerSound (s.run evs)
  | [], _, hs, h, _ => ⟨hs, h⟩
  | ev :: evs, s, hs, h, ha => by
    have hs' : SyncSound (s.step ev) := by
      rcases step_moves hs ha.1 with hm | ⟨m, type, hc, -⟩
      · exact hm.sound
      · exact hc.sound
    exact syncRun_timers evs hs' (step_follow hs h ev).sound ha.2

/-- The heap of timers has the armed timers, which are open and have not fired, in the order of their
deadlines and slots and with exact positions; an event arms, disarms and fires timers as it is to; an
expiry is done when the next deadline is yet to come. A call to set a timer that fails leaves the
timers as they were but where `LosesFired`. -/
structure TimersExact (s : SyncState) : Prop where
  heap : ∀ n, n ∈ s.timerHeap ↔ (s.object n).timerPosition ≠ none
  position : ∀ n i, (s.object n).timerPosition = some i ↔ s.timerHeap[i]? = some n
  opened : ∀ n ∈ s.timerHeap, (s.object n).state = .live ∧ (s.object n).type = .timer
  order : ∀ i n parent, 0 < i → s.timerHeap[i]? = some n →
    s.timerHeap[(i - 1) / 2]? = some parent → timerLess s parent n
  exclusive : ∀ n, s.armedFor n ≠ none → ¬s.Fired n
  follow : ∀ ev, TimersFollow s ev
  expire : ∀ now, (kernelSyncExpireTimers s now).1 = .ok ∧
    ∀ deadline ∈ kernelSyncNextTimerDeadline (kernelSyncExpireTimers s now).2.1, now < deadline
  failed : ∀ n now deadline memory, ((kernelSyncTimerSet s n now deadline memory).1 ≠ .ok →
      ∀ m, (kernelSyncTimerSet s n now deadline memory).2.1.armedFor m = s.armedFor m ∧
        ((kernelSyncTimerSet s n now deadline memory).2.1.Fired m ↔ s.Fired m)) ↔
    ¬LosesFired s n now deadline memory

theorem timerSet_failed (hs : SyncSound s) (h : TimerSound s) (n now deadline : ℕ)
    (memory : Bool) : ((kernelSyncTimerSet s n now deadline memory).1 ≠ .ok →
      ∀ m, (kernelSyncTimerSet s n now deadline memory).2.1.armedFor m = s.armedFor m ∧
        ((kernelSyncTimerSet s n now deadline memory).2.1.Fired m ↔ s.Fired m)) ↔
    ¬LosesFired s n now deadline memory := by
  rcases kernelSyncTimerSet_spec hs h n now deadline memory with
    ⟨hne, he, hn⟩ | ⟨he, hnow, hmemory, hleaf, hl, ht, hn⟩ | ⟨hok, hgranted, hset⟩
  · refine iff_of_true (fun _ m => ?_) fun h1 => hn ⟨h1.1.1, h1.1.2.1⟩
    rw [he]
    exact ⟨rfl, Iff.rfl⟩
  · rw [he]
    by_cases hcount : (s.object n).count = 0
    · -- nothing is cleared that was set
      have hsame : (s.setObject n fun o => { o with count := 0 }) = s := by
        unfold SyncState.setObject
        rw [← hcount, update_eq_self]
      refine iff_of_true (fun _ m => ?_) fun h1 => h1.1.2.2 hcount
      rw [hsame]
      exact ⟨rfl, Iff.rfl⟩
    · refine iff_of_false (fun hkept => ?_) fun h1 => h1 ⟨⟨hl, ht, hcount⟩, hnow, hmemory, hleaf⟩
      have hfired := ((hkept (by simp) n).2.2 ⟨hl, ht, hcount⟩).2.2
      simp [SyncState.setObject] at hfired
  · refine iff_of_true (fun hne => absurd hok hne) fun hlost => ?_
    obtain ⟨hfired, hnow, hmemory, hleaf⟩ := hlost
    exact hfired.2.2 (h.armed n (hgranted hnow hmemory hleaf)).2.2

theorem timersExact_of_sound (hs : SyncSound s) (h : TimerSound s) : TimersExact s where
  heap n := h.shape.mem_iff n
  position := h.shape
  opened n hn := ⟨(h.armed n hn).1, (h.armed n hn).2.1⟩
  order i n parent hi hn hparent := by
    obtain ⟨hlt, -⟩ := List.getElem?_eq_some_iff.1 hn
    have hle := h.order i hi hlt
    rw [ranks_of_getElem? (d := s.timers) hn, ranks_of_getElem? (d := s.timers) hparent] at hle
    rw [timerLess_iff, deadlinePrecedes_iff]
    refine hle.lt_of_ne fun he => ?_
    have hslot : parent = n := congrArg (fun r => (ofLex r).2) he
    have h1 := (h.shape n i).2 hn
    have h2 := (h.shape parent _).2 hparent
    rw [hslot, h1] at h2
    have := Option.some.inj h2
    omega
  exclusive n hn hf := by
    refine hf.2.2 (h.armed n ?_).2.2
    by_contra hmem
    exact hn (armedFor_of_notMem hmem)
  follow := step_follow hs h
  expire now := by
    obtain ⟨hok, hexpired⟩ := kernelSyncExpireTimers_sound hs h now
    exact ⟨hok, hexpired.next⟩
  failed := timerSet_failed hs h

/-- In every run of sane calls the timers are exact. -/
theorem timers_run (audit : Bool) (evs : List SyncEvent)
    (hs : (kernelSyncPoolInit (kernelThreadPoolInit audit)).Along SyncSane evs) :
    TimersExact (syncAfter audit evs) := by
  obtain ⟨h1, h2⟩ := syncRun_timers evs (syncSound_init audit) (timerSound_init audit) hs
  exact timersExact_of_sound h1 h2

/-- A timer is created, and set to a deadline that has come. -/
def firedOnce : List SyncEvent :=
  [.createTimer 1 ⟨true, true, true⟩, .timerSet 0 5 5 true]

theorem timers_run_fired : (syncAfter false firedOnce).Fired 0 ∧
    TimersExact (syncAfter false firedOnce) :=
  ⟨⟨by decide +kernel, by decide +kernel, by decide +kernel⟩,
    timers_run false firedOnce (by simp [firedOnce, SyncState.Along, SyncSane])⟩

/-- The timer that has fired is set again without a frame for the heap: the call is refused, and the
timer is fired no more. -/
theorem timers_run_lost : (syncAfter false firedOnce).Fired 0 ∧
    (kernelSyncTimerSet (syncAfter false firedOnce) 0 5 9 false).1 = .noSlot ∧
    ¬(kernelSyncTimerSet (syncAfter false firedOnce) 0 5 9 false).2.1.Fired 0 := by
  refine ⟨⟨by decide +kernel, by decide +kernel, by decide +kernel⟩, by decide +kernel, fun h => ?_⟩
  exact absurd h.2.2 (by decide +kernel)

end

end Astra
