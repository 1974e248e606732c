import AstraKernel.Proofs.Calm

/-!
# Thread records that come and go

A record is registered in a slot that no queue, heap or donor list has anything of, and it is taken
out of the directory when none of them has anything of it again.
-/

namespace Astra

open Function List

structure Aside (p p' : Pool) (t : Slot) : Prop where
  before : validThread p t → p.state t ≠ .blocked
  after : p'.state t ≠ .blocked
  notices : noticesOf p' t = noticesOf p t
  still : ∀ x, x ≠ t → Still p p' x
  state : ∀ x, x ≠ t → p'.state x = p.state x
  occupied : ∀ x, x ≠ t → p'.occupied x = p.occupied x
  id : ∀ x, x ≠ t → p'.id x = p.id x
  kept : validThread p t → validThread p' t ∧ p'.id t = p.id t
  nextCall : p'.nextCall = p.nextCall
  call : validThread p t ∧ p'.call t = p.call t ∨ p'.call t = 0

section

variable {p p' : Pool} {R : ℕ → List Slot} {Q : QueueRef → List Registration}
  {S : Finset Registration} {D D' : Slot → List Slot} {t : Slot}

structure Vacant (p : Pool) (t : Slot) : Prop where
  previous : p.ready.readyPrevious t = none
  next : p.ready.readyNext t = none
  row : ∀ m, p.waits.row (t, m) = ⟨none, none, none⟩
  each : p.waits.waitRegistrationCount t = 0
  position : p.deadlines.deadlinePosition t = none
  ownerId : p.donors.waitOwnerId t = 0
  ownerSlot : p.donors.waitOwnerSlot t = none
  donorHead : p.donors.waitDonorHead t = none
  donorPrevious : p.donors.waitDonorPrevious t = none
  donorNext : p.donors.waitDonorNext t = none
  kind : p.donors.donationKind t = .none

theorem Sound.vacant (h : Sound p R Q S D none) (ht : ¬ validThread p t) : Vacant p t := by
  have hR : ∀ k, t ∉ R k := fun k hk => ht ((h.queued.readyMem t k).1 hk).1
  have hS : ∀ m, (t, m) ∉ S := fun m hm => ht ((h.queued.linked t m).1 hm).1
  have hD : ∀ x, t ∉ D x := fun x hx => ht (h.donated.ends x t hx).1
  have hDt : D t = [] := eq_nil_iff_forall_not_mem.2 fun x hx =>
    ht (h.donated.ends t x hx).2.1
  obtain ⟨hn, hp⟩ := h.queued.ready.lists.off t hR
  obtain ⟨hn', hp'⟩ := h.donated.lists.off t hD
  have ho : p.donors.waitOwnerSlot t = none := by
    by_contra hne
    obtain ⟨y, hy⟩ := Option.ne_none_iff_exists'.1 hne
    exact hD y ((h.donated.owner t y).1 hy)
  refine ⟨hp, hn, fun m => h.queued.waits.row_clear (hS m), ?_, ?_, (h.donated.free t ho).1, ho, ?_,
    hp', hn', (h.donated.free t ho).2⟩
  · rw [h.queued.waits.each, Finset.card_eq_zero, Finset.filter_eq_empty_iff]
    rintro ⟨s, m⟩ hr rfl
    exact hS m hr
  · by_contra hne
    exact ht (h.steady.timed t ((h.steady.heap.mem_iff t).2 hne)).1
  · rw [h.donated.lists.head, hDt]
    rfl

theorem Vacant.register_eq (h : Vacant p t) (id processId processSlot argument priority : ℕ) :
    p.register t id processId processSlot argument priority = { p with
      occupied := update p.occupied t true
      threadSlots := max p.threadSlots (t + 1)
      id := update p.id t id
      processId := update p.processId t processId
      processSlot := update p.processSlot t processSlot
      state := update p.state t .created
      suspended := update p.suspended t false
      selfHandle := update p.selfHandle t 0
      handleReferences := update p.handleReferences t 0
      stackReleased := update p.stackReleased t false
      reapPending := update p.reapPending t false
      exitStatus := update p.exitStatus t 0
      terminalResult := update p.terminalResult t 0
      call := update p.call t 0
      data := update p.data t (update (fun _ => 0) 2 argument)
      waitObserver := update p.waitObserver t none
      prio := {
        basePriority := update p.prio.basePriority t priority
        inheritedPriority := update p.prio.inheritedPriority t 0
        donatedPriority := update p.prio.donatedPriority t 0
        budgetThrottled := update p.prio.budgetThrottled t false
        effectivePriority := update p.prio.effectivePriority t priority }
      waits := { p.waits with
        queue := update (update p.waits.queue (.death t) kernelThreadWaitQueueInit) (.call t)
          kernelThreadWaitQueueInit
        rowAllocated := update p.waits.rowAllocated t false
        waitMemberCount := update p.waits.waitMemberCount t 0
        waitMode := update p.waits.waitMode t .none }
      deadlines := { p.deadlines with
        deadlineCycles := update p.deadlines.deadlineCycles t 0
        deadlineResult := update p.deadlines.deadlineResult t 0 } } := by
  have hrow : (fun r : Registration => if r.1 = t then ⟨none, none, none⟩ else p.waits.row r)
      = p.waits.row := by
    funext ⟨s, m⟩
    split_ifs with hs
    · obtain rfl : s = t := hs
      rw [h.row]
    · rfl
  have hready : ({ p.ready with
      readyPrevious := update p.ready.readyPrevious t none
      readyNext := update p.ready.readyNext t none } : ReadyQueues) = p.ready := by
    have h1 := h.previous
    have h2 := h.next
    rw [← h1, update_eq_self, h1, ← h2, update_eq_self]
  have hdonors : (⟨update p.donors.waitOwnerId t 0, update p.donors.waitOwnerSlot t none,
      update p.donors.waitDonorHead t none, update p.donors.waitDonorPrevious t none,
      update p.donors.waitDonorNext t none, update p.donors.donationKind t .none⟩ : DonorTable)
      = p.donors := by
    rw [update_eq_iff.2 ⟨h.ownerId.symm, fun _ _ => rfl⟩,
      update_eq_iff.2 ⟨h.ownerSlot.symm, fun _ _ => rfl⟩,
      update_eq_iff.2 ⟨h.donorHead.symm, fun _ _ => rfl⟩,
      update_eq_iff.2 ⟨h.donorPrevious.symm, fun _ _ => rfl⟩,
      update_eq_iff.2 ⟨h.donorNext.symm, fun _ _ => rfl⟩,
      update_eq_iff.2 ⟨h.kind.symm, fun _ _ => rfl⟩]
  have heach : update p.waits.waitRegistrationCount t 0 = p.waits.waitRegistrationCount :=
    update_eq_iff.2 ⟨h.each.symm, fun _ _ => rfl⟩
  have hpos : update p.deadlines.deadlinePosition t none = p.deadlines.deadlinePosition :=
    update_eq_iff.2 ⟨h.position.symm, fun _ _ => rfl⟩
  unfold Pool.register resetWaitRow
  simp only [hrow, hready, hdonors, heach, hpos]

theorem Queued.nil_of_vacant (h : Queued p R Q S none) (ht : ¬ validThread p t) :
    Q (.death t) = [] ∧ Q (.call t) = [] := by
  refine ⟨eq_nil_iff_forall_not_mem.2 fun r hr => ht (h.deathQueue t r hr),
    eq_nil_iff_forall_not_mem.2 fun r hr => ht ?_⟩
  obtain ⟨rfl, -⟩ := h.callQueue t r hr
  exact ((h.linked t 0).1 (h.waits.mem hr)).1

theorem Queued.register (h : Queued p R Q S none) (ht : ¬ validThread p t) (hv : Vacant p t)
    (hslot : t < kernelThreadSlotNone) {priority : ℕ} (hp : priority < kernelThreadPriorityLevels)
    (id processId processSlot argument : ℕ) :
    Queued (p.register t id processId processSlot argument priority) R Q S none := by
  rw [hv.register_eq]
  have hne : ∀ x, validThread p x → x ≠ t := fun x hx he => ht (he ▸ hx)
  have hvalid : ∀ x, update p.occupied t true x = true ↔ validThread p x ∨ x = t := fun x => by
    by_cases hx : x = t
    · simp [hx]
    · simp [hx, validThread]
  obtain ⟨hdq, hcq⟩ := h.nil_of_vacant ht
  have hSne : ∀ x m, (x, m) ∈ S → x ≠ t := fun x m hm => hne x ((h.linked x m).1 hm).1
  refine {
    slot := fun x hx => ?_, slots := ?_, ready := h.ready, readyMem := fun x k => ?_, waits := ?_,
    linked := fun x m => ?_, waiting := fun x hx => ?_, memberMax := fun x hx => ?_,
    row := fun x hx hm => ?_, served := fun q => ?_, base := fun x hx => ?_,
    inherited := fun x hx => ?_, donated := fun x hx => ?_, effective := fun x hx => ?_,
    known := fun x hx => ?_, callQueue := fun s r hr => ?_, deathQueue := fun s r hr => ?_ }
  · show x < max p.threadSlots (t + 1)
    rcases (hvalid x).1 hx with hx | rfl
    · exact (h.slot x hx).trans_le (le_max_left _ _)
    · exact (Nat.lt_succ_self x).trans_le (le_max_right _ _)
  · exact max_le h.slots hslot
  · rw [h.readyMem]
    show _ ↔ update p.occupied t true x = true ∧ _
    rw [hvalid]
    by_cases hx : x = t
    · subst hx
      simp [ht]
    · simp [hx]
  · have hw := h.waits
    refine ⟨⟨hw.lists.nodup, hw.lists.disjoint, fun q => ?_, hw.lists.linked, hw.lists.off⟩,
      fun q => ?_, hw.queued, fun q => ?_, hw.linked, hw.total, hw.each⟩
    all_goals
      simp only [update_apply]
      split_ifs with h1 h2
    · rw [h1, hcq]
      rfl
    · rw [h2, hdq]
      rfl
    · exact hw.lists.head q
    · rw [h1, hcq]
      rfl
    · rw [h2, hdq]
      rfl
    · exact hw.tail q
    · rw [h1, hcq]
      rfl
    · rw [h2, hdq]
      rfl
    · exact hw.count q
  · rw [h.linked]
    show _ ↔ update p.occupied t true x = true ∧ m < update p.waits.waitMemberCount t 0 x
    rw [hvalid]
    by_cases hx : x = t
    · subst hx
      simp [ht]
    · simp [hx]
  · show update p.waits.waitMemberCount t 0 x ≠ 0 ↔ update p.state t .created x = .blocked ∧ _
    rcases (hvalid x).1 hx with hx | rfl
    · simp only [update_of_ne (hne x hx)]
      exact h.waiting x hx
    · simp
  · show update p.waits.waitMemberCount t 0 x ≤ _
    rcases (hvalid x).1 hx with hx | rfl
    · simp only [update_of_ne (hne x hx)]
      exact h.memberMax x hx
    · simp
  · have hm : update p.waits.waitMemberCount t 0 x ≠ 0 := hm
    rcases (hvalid x).1 hx with hx | rfl
    · rw [update_of_ne (hne x hx)] at hm
      exact (update_of_ne (hne x hx) _ _).trans (h.row x hx hm)
    · exact absurd (update_self ..) hm
  · exact (h.served q).congr fun r hr => update_of_ne (hSne r.1 r.2 (h.waits.mem hr)) _ _
  · show update p.prio.basePriority t priority x < _
    rcases (hvalid x).1 hx with hx | rfl
    · rw [update_of_ne (hne x hx)]
      exact h.base x hx
    · rwa [update_self]
  · show update p.prio.inheritedPriority t 0 x < _
    rcases (hvalid x).1 hx with hx | rfl
    · rw [update_of_ne (hne x hx)]
      exact h.inherited x hx
    · rw [update_self]
      exact Nat.succ_pos _
  · show update p.prio.donatedPriority t 0 x < _
    rcases (hvalid x).1 hx with hx | rfl
    · rw [update_of_ne (hne x hx)]
      exact h.donated x hx
    · rw [update_self]
      exact Nat.succ_pos _
  · simp only [PriorityTable.effectiveOf]
    rcases (hvalid x).1 hx with hx | rfl
    · simp only [update_of_ne (hne x hx)]
      exact h.effective x hx
    · simp [priorityEffective, throttledBase]
  · show update p.state t .created x ≠ .unused
    rcases (hvalid x).1 hx with hx | rfl
    · rw [update_of_ne (hne x hx)]
      exact h.known x hx
    · simp
  · obtain ⟨rfl, hm⟩ := h.callQueue s r hr
    exact ⟨rfl, (update_of_ne (hSne s 0 (h.waits.mem hr)) _ _).trans hm⟩
  · exact (hvalid s).2 (.inl (h.deathQueue s r hr))

theorem Sound.register (h : Sound p R Q S D none) (ht : ¬ validThread p t)
    (hslot : t < kernelThreadSlotNone) {priority : ℕ} (hp : priority < kernelThreadPriorityLevels)
    {id : ℕ} (hid : id ≠ 0) (processId processSlot argument : ℕ) :
    Sound (p.register t id processId processSlot argument priority) R Q S D none := by
  have hv := h.vacant ht
  refine ⟨h.queued.register ht hv hslot hp id processId processSlot argument, ?_, ?_⟩
  all_goals
    rw [hv.register_eq]
    have hne : ∀ x, validThread p x → x ≠ t := fun x hx he => ht (he ▸ hx)
    have hvalid : ∀ x, update p.occupied t true x = true ↔ validThread p x ∨ x = t := fun x => by
      by_cases hx : x = t
      · simp [hx]
      · simp [hx, validThread]
  · have hd := h.donated
    refine ⟨hd.lists, hd.owner, hd.free, fun r x hx => ?_, fun r x hx hl => ?_, hd.grounded,
      fun x hx => ?_, fun x hx _ => ?_⟩
    · obtain ⟨h1, h2, h3, h4, h5⟩ := hd.ends r x hx
      refine ⟨(hvalid x).2 (.inl h1), (hvalid r).2 (.inl h2), ?_, ?_, ?_⟩
      · exact fun he => h3 ((update_of_ne (hne r h2) _ _).symm.trans he)
      · exact (update_of_ne (hne x h1) _ _).trans h4
      · exact h5.trans (update_of_ne (hne r h2) _ _).symm
    · have hxt := hne x (hd.ends r x hx).1
      simpa only [WaitsFor, update_of_ne hxt] using hd.kind r x hx hl
    · show update p.id t id x ≠ 0
      rcases (hvalid x).1 hx with hx | rfl
      · rw [update_of_ne (hne x hx)]
        exact hd.id x hx
      · rwa [update_self]
    · show update p.prio.donatedPriority t 0 x
        = maxEffective (update p.prio.effectivePriority t priority) (D x)
      rw [maxEffective_congr fun y hy => update_of_ne (hne y (hd.ends x y hy).1) _ _]
      rcases (hvalid x).1 hx with hx | rfl
      · rw [update_of_ne (hne x hx)]
        exact hd.exact x hx (by simp)
      · have hnil : D x = [] := eq_nil_iff_forall_not_mem.2 fun y hy =>
          ht (hd.ends x y hy).2.1
        rw [update_self, hnil]
        rfl
  · have hs := h.steady
    refine ⟨hs.heap, fun x hx => ?_, fun x hx hb => ?_, fun x hx hb => ?_, fun q => ?_, hs.nextSlot⟩
    · obtain ⟨h1, h2⟩ := hs.timed x hx
      exact ⟨(hvalid x).2 (.inl h1), (update_of_ne (hne x h1) _ _).trans h2⟩
    · show update p.waitObserver t none x = none
      rcases (hvalid x).1 hx with hx | rfl
      · rw [update_of_ne (hne x hx)]
        exact hs.observer x hx fun hb' => hb ((update_of_ne (hne x hx) _ _).trans hb')
      · exact update_self ..
    · show update p.waits.waitMode t .none x = .none
      rcases (hvalid x).1 hx with hx | rfl
      · rw [update_of_ne (hne x hx)]
        exact hs.mode x hx fun hb' => hb ((update_of_ne (hne x hx) _ _).trans hb')
      · exact update_self ..
    · simp only [update_apply]
      split_ifs
      · decide
      · decide
      · exact hs.sequence q

theorem allocateSlot_spec : ∀ (attempts : ℕ) (p : Pool), p.nextThreadSlot < kernelThreadSlotNone →
    ∃ n < kernelThreadSlotNone, (allocateSlot attempts p).2 = { p with nextThreadSlot := n } ∧
      ∀ slot, (allocateSlot attempts p).1 = some slot →
        ¬ validThread p slot ∧ slot < kernelThreadSlotNone
  | 0, p, h => ⟨p.nextThreadSlot, h, rfl, fun slot hs => by simp [allocateSlot] at hs⟩
  | attempts + 1, p, h => by
    unfold allocateSlot
    have hnext : (if p.nextThreadSlot + 1 = kernelThreadSlotNone then 0 else p.nextThreadSlot + 1)
        < kernelThreadSlotNone := by
      split_ifs with hlast
      · decide
      · exact Nat.lt_of_le_of_ne (Nat.succ_le_of_lt h) hlast
    by_cases hv : ¬ validThread p p.nextThreadSlot
    · have hv' : ¬ validThread { p with nextThreadSlot :=
          if p.nextThreadSlot + 1 = kernelThreadSlotNone then 0 else p.nextThreadSlot + 1 }
          p.nextThreadSlot := hv
      simp only [hv', not_false_iff, if_true]
      refine ⟨_, hnext, rfl, fun slot hs => ?_⟩
      cases hs
      exact ⟨hv, h⟩
    · have hv' : ¬ ¬ validThread { p with nextThreadSlot :=
          if p.nextThreadSlot + 1 = kernelThreadSlotNone then 0 else p.nextThreadSlot + 1 }
          p.nextThreadSlot := hv
      simp only [if_neg hv']
      obtain ⟨n, h1, h2, h3⟩ := allocateSlot_spec attempts { p with nextThreadSlot :=
        if p.nextThreadSlot + 1 = kernelThreadSlotNone then 0 else p.nextThreadSlot + 1 } hnext
      exact ⟨n, h1, h2, h3⟩

theorem allocateThreadIdentity_spec : ∀ (attempts : ℕ) (p : Pool),
    ∃ n, (allocateThreadIdentity attempts p).2 = { p with nextThreadId := n } ∧
      ∀ id, (allocateThreadIdentity attempts p).1 = some id →
        id ≠ 0 ∧ ∀ x < p.threadSlots, validThread p x → p.id x ≠ id
  | 0, p => ⟨p.nextThreadId, rfl, fun id hid => by simp [allocateThreadIdentity] at hid⟩
  | attempts + 1, p => by
    by_cases hused : ((List.range p.threadSlots).any fun slot => decide (validThread p slot
        ∧ p.id slot = threadIdPrefix ||| (p.nextThreadId % threadIdValueMask + 1))) = true
    · obtain ⟨n, h1, h2⟩ := allocateThreadIdentity_spec attempts
        { p with nextThreadId := p.nextThreadId % threadIdValueMask + 1 }
      refine ⟨n, ?_, fun id hid => h2 id ?_⟩
      · exact (congrArg Prod.snd (if_pos hused)).trans h1
      · exact (congrArg Prod.fst (if_pos hused)).symm.trans hid
    · refine ⟨_, congrArg Prod.snd (if_neg hused), fun id hid => ?_⟩
      have hid := (congrArg Prod.fst (if_neg hused)).symm.trans hid
      cases hid
      refine ⟨fun hz => ?_, fun x hx hv he => hused ?_⟩
      · have := Nat.left_le_or (n := threadIdPrefix)
          (m := p.nextThreadId % threadIdValueMask + 1)
        rw [hz] at this
        exact absurd this (by decide)
      · rw [any_eq_true]
        exact ⟨x, mem_range.2 hx, by simpa using ⟨hv, he⟩⟩

theorem Healthy.counters (h : Healthy p) {n : ℕ} (hn : n < kernelThreadSlotNone) (m : ℕ) :
    Stays p { p with nextThreadSlot := n, nextThreadId := m } := by
  obtain ⟨R, Q, S, D, h⟩ := h
  refine ⟨⟨R, Q, S, D, { h.queued with }, { h.donated with }, { h.steady with nextSlot := hn }⟩,
    rfl, rfl, rfl, fun _ => ?_, fun _ => Iff.rfl⟩
  exact ⟨rfl, rfl, fun _ => rfl, Iff.rfl, rfl, rfl, rfl, rfl, rfl, rfl⟩

theorem kernelThreadAllocate_spec (h : Healthy p) (processSlot processId programCounter userStack
    argument priority : ℕ) (memory : ThreadMemory) :
    (∃ slot p', kernelThreadAllocate p processSlot processId programCounter userStack argument
        priority memory = ((.ok, p'), some slot) ∧ ¬ validThread p slot ∧ Healthy p' ∧
        Aside p p' slot) ∨
      ∃ status p', kernelThreadAllocate p processSlot processId programCounter userStack argument
        priority memory = ((status, p'), none) ∧ status ≠ .ok ∧ Stays p p' := by
  unfold kernelThreadAllocate
  split
  · exact .inr ⟨_, p, rfl, by simp, .refl h⟩
  rename_i hargs
  push Not at hargs
  have hnext : p.nextThreadSlot < kernelThreadSlotNone := by
    obtain ⟨R, Q, S, D, h⟩ := h
    exact h.steady.nextSlot
  obtain ⟨n, hn, hp₁, hslot⟩ := allocateSlot_spec kernelThreadSlotNone p hnext
  rcases hs : allocateSlot kernelThreadSlotNone p with ⟨_ | slot, p₁⟩
  · rw [hs] at hp₁
    obtain rfl : p₁ = { p with nextThreadSlot := n } := hp₁
    exact .inr ⟨_, _, rfl, by simp, h.counters hn p.nextThreadId⟩
  rw [hs] at hp₁ hslot
  obtain rfl : p₁ = { p with nextThreadSlot := n } := hp₁
  obtain ⟨hfree, hlt⟩ := hslot slot rfl
  simp only
  split
  · exact .inr ⟨_, _, rfl, by simp, h.counters hn p.nextThreadId⟩
  split
  · exact .inr ⟨_, _, rfl, by simp, h.counters hlt p.nextThreadId⟩
  obtain ⟨m, hp₂, hid⟩ := allocateThreadIdentity_spec threadIdValueMask
    { p with nextThreadSlot := n }
  rcases hi : allocateThreadIdentity threadIdValueMask { p with nextThreadSlot := n }
    with ⟨_ | id, p₂⟩
  · rw [hi] at hp₂
    obtain rfl : p₂ = { p with nextThreadSlot := n, nextThreadId := m } := hp₂
    exact .inr ⟨_, _, rfl, by simp, h.counters hlt m⟩
  rw [hi] at hp₂ hid
  obtain rfl : p₂ = { p with nextThreadSlot := n, nextThreadId := m } := hp₂
  simp only
  split
  · exact .inr ⟨_, _, rfl, by simp, h.counters hlt m⟩
  obtain ⟨R, Q, S, D, h₁⟩ := (h.counters hn m).1
  have hsound := h₁.register (t := slot) hfree hlt hargs.2.2.2.2 (hid id rfl).1 processId
    processSlot argument
  have hv := h₁.vacant (t := slot) hfree
  refine .inl ⟨slot, _, rfl, hfree, ⟨R, Q, S, D, hsound⟩, ?_⟩
  rw [hv.register_eq]
  refine ⟨fun hx => absurd hx hfree, ?_, rfl, fun x hx => ?_, fun x hx => ?_,
    fun x hx => ?_, fun x hx => ?_, fun hx => absurd hx hfree, rfl, .inr (update_self ..)⟩
  · show update p.state slot .created slot ≠ .blocked
    rw [update_self]
    simp
  · exact ⟨update_of_ne hx _ _, update_of_ne hx _ _, fun _ => rfl, Iff.rfl,
      update_of_ne hx _ _, update_of_ne hx _ _, update_of_ne hx _ _, rfl,
      update_of_ne hx _ _, update_of_ne hx _ _⟩
  all_goals exact update_of_ne hx _ _

structure Reaped (p p' : Pool) : Prop where
  still : ∀ x, Still p p' x
  id : p'.id = p.id
  nextCall : p'.nextCall = p.nextCall
  valid : ∀ x, validThread p' x → validThread p x ∧ p'.state x = p.state x
  blocked : ∀ x, validThread p x → p.state x = .blocked → validThread p' x
  state : ∀ x, p'.state x = .blocked → p.state x = .blocked

theorem Reaped.trans {p₁ p₂ : Pool} (h : Reaped p p₁) (h' : Reaped p₁ p₂) : Reaped p p₂ where
  still x := (h.still x).trans (h'.still x)
  id := h'.id.trans h.id
  nextCall := h'.nextCall.trans h.nextCall
  valid x hx := by
    obtain ⟨h1, h2⟩ := h'.valid x hx
    obtain ⟨h3, h4⟩ := h.valid x h1
    exact ⟨h3, h2.trans h4⟩
  blocked x hx hb := by
    have h1 := h.blocked x hx hb
    exact h'.blocked x h1 ((h.valid x h1).2.trans hb)
  state x hx := h.state x (h'.state x hx)

theorem trimThreadSlots_spec (p : Pool) : ∀ n, trimThreadSlots p n ≤ n ∧
    ∀ x < n, validThread p x → x < trimThreadSlots p n
  | 0 => ⟨le_rfl, fun x hx => absurd hx (Nat.not_lt_zero x)⟩
  | n + 1 => by
    unfold trimThreadSlots
    split_ifs with hv
    · exact ⟨le_rfl, fun x hx _ => hx⟩
    · obtain ⟨h1, h2⟩ := trimThreadSlots_spec p n
      refine ⟨h1.trans (Nat.le_succ n), fun x hx hvx => h2 x ?_ hvx⟩
      rcases Nat.lt_succ_iff_lt_or_eq.1 hx with hx | rfl
      · exact hx
      · exact absurd hvx hv

theorem Sound.trim (h : Sound p R Q S D none) : Sound p.trim R Q S D none :=
  ⟨{ h.queued with
      slot := fun x hx => (trimThreadSlots_spec p _).2 x (h.queued.slot x hx) hx
      slots := (trimThreadSlots_spec p _).1.trans h.queued.slots },
    { h.donated with }, { h.steady with }⟩

theorem Sound.unregister (h : Sound p R Q S D none) (ht : p.state t = .dead) (hQ : Q (.death t) = []) :
    Sound (p.unregister t) R Q S D none := by
  have hvalid : ∀ x, update p.occupied t false x = true ↔ validThread p x ∧ x ≠ t := fun x => by
    by_cases hx : x = t
    · simp [hx]
    · simp [hx, validThread]
  have hm : validThread p t → p.waits.waitMemberCount t = 0 := fun hv => by
    by_contra hne
    have := ((h.queued.waiting t hv).1 hne).1
    rw [ht] at this
    exact absurd this (by simp)
  have hd := h.donated
  refine ⟨{ h.queued with
    slot := fun x hx => h.queued.slot x ((hvalid x).1 hx).1
    readyMem := fun x k => ?_
    linked := fun x m => ?_
    waiting := fun x hx => h.queued.waiting x ((hvalid x).1 hx).1
    memberMax := fun x hx => h.queued.memberMax x ((hvalid x).1 hx).1
    row := fun x hx => h.queued.row x ((hvalid x).1 hx).1
    base := fun x hx => h.queued.base x ((hvalid x).1 hx).1
    inherited := fun x hx => h.queued.inherited x ((hvalid x).1 hx).1
    donated := fun x hx => h.queued.donated x ((hvalid x).1 hx).1
    effective := fun x hx => h.queued.effective x ((hvalid x).1 hx).1
    known := fun x hx => h.queued.known x ((hvalid x).1 hx).1
    deathQueue := fun s r hr => (hvalid s).2 ⟨h.queued.deathQueue s r hr, ?_⟩ },
    { hd with
      ends := fun r x hx => ?_
      id := fun x hx => hd.id x ((hvalid x).1 hx).1
      exact := fun x hx => hd.exact x ((hvalid x).1 hx).1 },
    { h.steady with
      timed := fun x hx => ?_
      observer := fun x hx => h.steady.observer x ((hvalid x).1 hx).1
      mode := fun x hx => h.steady.mode x ((hvalid x).1 hx).1
      nextSlot := ?_ }⟩
  · rw [h.queued.readyMem]
    show _ ↔ update p.occupied t false x = true ∧ _
    rw [hvalid]
    by_cases hx : x = t
    · subst hx
      simp [Pool.unregister, ht]
    · simp [Pool.unregister, hx]
  · rw [h.queued.linked]
    show _ ↔ update p.occupied t false x = true ∧ _
    rw [hvalid]
    by_cases hx : x = t
    · subst hx
      simp only [ne_eq, not_true, and_false, false_and, iff_false, not_and]
      intro hv
      rw [hm hv]
      exact Nat.not_lt_zero m
    · simp [Pool.unregister, hx]
  · rintro rfl
    simp [hQ] at hr
  · obtain ⟨h1, h2, h3, h4, h5⟩ := hd.ends r x hx
    refine ⟨(hvalid x).2 ⟨h1, ?_⟩, (hvalid r).2 ⟨h2, ?_⟩, h3, h4, h5⟩
    · rintro rfl
      rw [ht] at h4
      exact absurd h4 (by simp)
    · rintro rfl
      exact h3 ht
  · obtain ⟨h1, h2⟩ := h.steady.timed x hx
    refine ⟨(hvalid x).2 ⟨h1, ?_⟩, h2⟩
    rintro rfl
    rw [ht] at h2
    exact absurd h2 (by simp)
  · have h1 := h.steady.nextSlot
    unfold Pool.unregister
    simp only
    split_ifs with hlt
    · exact lt_trans hlt h1
    · exact h1

theorem reaped_unregister (ht : p.state t ≠ .blocked) : Reaped p (p.unregister t) where
  still _ := ⟨rfl, rfl, fun _ => rfl, Iff.rfl, rfl, rfl, rfl, rfl, rfl, rfl⟩
  id := rfl
  nextCall := rfl
  valid x hx := by
    have hx : update p.occupied t false x = true := hx
    by_cases hxt : x = t
    · simp [hxt] at hx
    · rw [update_of_ne hxt] at hx
      exact ⟨hx, rfl⟩
  blocked x hx hb := by
    have hxt : x ≠ t := by
      rintro rfl
      exact ht hb
    exact (update_of_ne hxt _ _).trans hx
  state _ hx := hx

theorem reaped_trim (p : Pool) : Reaped p p.trim :=
  ⟨fun _ => ⟨rfl, rfl, fun _ => rfl, Iff.rfl, rfl, rfl, rfl, rfl, rfl, rfl⟩, rfl, rfl,
    fun _ hx => ⟨hx, rfl⟩, fun _ hx _ => hx, fun _ hx => hx⟩

theorem Calm.reaped (h : Calm p p') (hs : p'.state = p.state) : Reaped p p' :=
  ⟨h.still, h.id, h.nextCall, fun x hx => ⟨by unfold validThread at *; rwa [h.occupied] at hx,
    congrFun hs x⟩, fun x hx _ => by unfold validThread at *; rwa [h.occupied],
    fun x => (h.blocked x).1⟩

def Pool.housekeep (p : Pool) (selfHandle handleReferences : Slot → ℕ)
    (stackReleased reapPending : Slot → Bool) (reapPendingCount : ℕ) (exitStatus : Slot → ℕ)
    (terminalResult : Slot → ℕ) (liveThreads : ℕ) (poolCorrupt : Bool) : Pool :=
  { p with
    selfHandle := selfHandle
    handleReferences := handleReferences
    stackReleased := stackReleased
    reapPending := reapPending
    reapPendingCount := reapPendingCount
    exitStatus := exitStatus
    terminalResult := terminalResult
    liveThreads := liveThreads
    poolCorrupt := poolCorrupt }

def Housekept (p p' : Pool) : Prop :=
  ∃ a b c d e f g h i, p' = p.housekeep a b c d e f g h i

theorem Housekept.sound {loose : Option Slot} (hk : Housekept p p') (h : Sound p R Q S D loose) :
    Sound p' R Q S D loose := by
  obtain ⟨a, b, c, d, e, f, g, l, i, rfl⟩ := hk
  exact ⟨{ h.queued with }, { h.donated with }, { h.steady with }⟩

theorem Housekept.stays (hk : Housekept p p') (h : Healthy p) : Stays p p' := by
  obtain ⟨R, Q, S, D, h⟩ := h
  refine ⟨⟨R, Q, S, D, hk.sound h⟩, ?_⟩
  obtain ⟨a, b, c, d, e, f, g, l, i, rfl⟩ := hk
  exact ⟨rfl, rfl, rfl, fun _ => ⟨rfl, rfl, fun _ => rfl, Iff.rfl, rfl, rfl, rfl, rfl, rfl, rfl⟩,
    fun _ => Iff.rfl⟩

theorem Housekept.state (hk : Housekept p p') : p'.state = p.state := by
  obtain ⟨a, b, c, d, e, f, g, l, i, rfl⟩ := hk
  rfl

theorem housekept_clearReapPending (p : Pool) (t : Slot) (released : Slot → Bool) :
    Housekept p (clearReapPending { p with stackReleased := released } t) := by
  unfold clearReapPending
  split_ifs
  · exact ⟨_, _, _, _, _, _, _, _, _, rfl⟩
  · exact ⟨_, _, _, _, _, _, _, _, _, rfl⟩

theorem housekept_markReapPending (p : Pool) (t : Slot) : Housekept p (markReapPending p t) := by
  unfold markReapPending
  split_ifs
  · exact ⟨_, _, _, _, _, _, _, _, _, rfl⟩
  · exact ⟨_, _, _, _, _, _, _, _, _, rfl⟩

theorem kernelThreadAttachHandle_stays (h : Healthy p) (t : Slot) (handle : ℕ) :
    Stays p (kernelThreadAttachHandle p t handle).2 := by
  unfold kernelThreadAttachHandle
  split_ifs
  · exact .refl h
  · exact Housekept.stays ⟨_, _, _, _, _, _, _, _, _, rfl⟩ h

theorem kernelThreadPublish_stays (h : Healthy p) (t : Slot) :
    Stays p (kernelThreadPublish p t).2 := by
  unfold kernelThreadPublish
  split
  · exact .refl h
  rename_i hc
  push Not at hc
  obtain ⟨hv, hs, -⟩ := hc
  by_cases hu : p.suspended t = true
  · have hrefuse : enqueueReady { p with state := update p.state t .ready } t
        = (.invalidState, { p with state := update p.state t .ready }) := by
      unfold enqueueReady
      rw [if_pos]
      exact .inr (.inr (.inl hu))
    rw [hrefuse]
    have hback : update (update p.state t .ready) t .created = p.state := by
      rw [update_idem, ← hs, update_eq_self]
    simp only [hback]
    exact .refl h
  · obtain ⟨R, Q, S, D, h⟩ := h
    obtain ⟨rq, h1, h2⟩ := readyFrom h hv (by simp [hs]) (by simp [hs]) (by simpa using hu)
    rw [h1]
    exact h2.trans (Housekept.stays ⟨_, _, _, _, _, _, _, _, _, rfl⟩ h2.1)

theorem Queued.death_nil (h : Queued p R Q S none) (hc : kernelThreadWaitQueueCount p (.death t) = 0) :
    Q (.death t) = [] := by
  rw [waitQueueCount_of h.waits h.live] at hc
  exact eq_nil_of_length_eq_zero hc

theorem Sound.bury (h : Sound p R Q S D none) (hs : Off p t) (hD : D t = []) (u : Bool) :
    Sound { p with state := update p.state t .dead, suspended := update p.suspended t u } R Q S D
      none := by
  have hQ := (h.queued.enter hs).relabel (s := .dead) (by simp) u
  have hoff : Off { p with
      state := update p.state t .dead, suspended := update p.suspended t u } t := by
    have hd : update p.state t .dead t = .dead := update_self ..
    refine ⟨fun hb => ?_, fun hr => ?_⟩
    · exact absurd (hd.symm.trans hb) (by simp)
    · exact absurd (hd.symm.trans hr) (by simp)
  have hb := update_blocked_iff (p := p) (t := t) (s := .dead) hs.1 (by simp)
  have hD' := h.donated.restate (s := .dead) (.inl (h.donated.owner_none hs.1)) (.inl hD)
  exact ⟨hQ.leave hoff, { hD' with }, h.steady.of_ready p.ready hb⟩

theorem kernelThreadAbort_spec (h : Healthy p) (t : Slot) (hd : p.donors.waitDonorHead t = none) :
    Healthy (kernelThreadAbort p t).2 ∧ Reaped p (kernelThreadAbort p t).2 := by
  unfold kernelThreadAbort
  split_ifs with hc
  · exact ⟨h, Calm.reaped (.refl p) rfl⟩
  · push Not at hc
    obtain ⟨-, hs, -, -, hcount, -⟩ := hc
    obtain ⟨R, Q, S, D, h⟩ := h
    have hD : D t = [] := by
      rw [h.donated.lists.head] at hd
      exact List.head?_eq_none_iff.1 hd
    have hoff : Off p t := ⟨by simp [hs], fun hr => by simp [hs] at hr⟩
    have h₁ := h.bury hoff hD (p.suspended t)
    rw [update_eq_self] at h₁
    have h₂ := h₁.unregister (t := t) (update_self ..) (h.queued.death_nil hcount)
    refine ⟨⟨R, Q, S, D, h₂.trim⟩, ?_⟩
    have hout : Reaped p (Pool.unregister { p with state := update p.state t .dead } t) := by
      refine ⟨fun _ => ⟨rfl, rfl, fun _ => rfl, Iff.rfl, rfl, rfl, rfl, rfl, rfl, rfl⟩, rfl, rfl,
        fun x hx => ?_, fun x hx hb => ?_, fun x hx => ?_⟩
      · have hx : update p.occupied t false x = true := hx
        by_cases hxt : x = t
        · simp [hxt] at hx
        · rw [update_of_ne hxt] at hx
          exact ⟨hx, update_of_ne hxt _ _⟩
      · have hxt : x ≠ t := by
          rintro rfl
          simp [hs] at hb
        exact (update_of_ne hxt _ _).trans hx
      · have hx : update p.state t .dead x = .blocked := hx
        have hxt : x ≠ t := by
          rintro rfl
          simp at hx
        rwa [update_of_ne hxt] at hx
    exact hout.trans (reaped_trim _)

theorem kernelThreadFinishReap_spec (h : Healthy p) (t : Slot) :
    Healthy (kernelThreadFinishReap p t).1.2 ∧ Reaped p (kernelThreadFinishReap p t).1.2 := by
  unfold kernelThreadFinishReap
  split_ifs with hc
  · exact ⟨h, Calm.reaped (.refl p) rfl⟩
  push Not at hc
  obtain ⟨-, hs, -, -, -, hcount⟩ := hc
  have hk := housekept_clearReapPending p t (update p.stackReleased t true)
  obtain ⟨p₁, hp₁⟩ : ∃ p₁, p₁ = clearReapPending { p with
      stackReleased := update p.stackReleased t true } t := ⟨_, rfl⟩
  rw [← hp₁] at hk
  simp only [← hp₁]
  have h₁ := hk.stays h
  have hr₁ := Calm.reaped h₁.2 hk.state
  split_ifs
  · exact ⟨h₁.1, hr₁⟩
  · obtain ⟨R, Q, S, D, h⟩ := h
    have hs₁ : p₁.state t = .dead := by rw [hk.state, hs]
    have h₂ := (hk.sound h).unregister hs₁ (h.queued.death_nil hcount)
    exact ⟨⟨R, Q, S, D, h₂.trim⟩,
      hr₁.trans ((reaped_unregister (by rw [hs₁]; simp)).trans (reaped_trim _))⟩

theorem releaseThreads_spec (process : ℕ) : ∀ (slots : List Slot) (p : Pool) (found : Bool),
    Healthy p → Healthy (releaseThreads process p slots found).1.2 ∧
      Reaped p (releaseThreads process p slots found).1.2
  | [], p, _, h => ⟨h, Calm.reaped (.refl p) rfl⟩
  | t :: slots, p, found, h => by
    unfold releaseThreads
    split_ifs with hskip hdead hbad
    · exact releaseThreads_spec process slots p found h
    · exact ⟨h, Calm.reaped (.refl p) rfl⟩
    · exact ⟨h, Calm.reaped (.refl p) rfl⟩
    simp only [not_or, not_not] at hbad hdead
    have hk := housekept_clearReapPending p t (update p.stackReleased t true)
    obtain ⟨p₁, hp₁⟩ : ∃ p₁, p₁ = clearReapPending { p with
        stackReleased := update p.stackReleased t true } t := ⟨_, rfl⟩
    rw [← hp₁] at hk
    simp only [← hp₁]
    have hs₁ : p₁.state t = .dead := by rw [hk.state, hdead]
    have hr₁ := Calm.reaped (hk.stays h).2 hk.state
    obtain ⟨R, Q, S, D, h⟩ := h
    have h₂ := (hk.sound h).unregister hs₁ (h.queued.death_nil hbad.2.2.2.1)
    obtain ⟨h3, h4⟩ := releaseThreads_spec process slots (p₁.unregister t) true ⟨R, Q, S, D, h₂⟩
    exact ⟨h3, hr₁.trans ((reaped_unregister (by rw [hs₁]; simp)).trans h4)⟩

theorem kernelThreadReleaseProcess_spec (h : Healthy p) (process : ℕ) :
    Healthy (kernelThreadReleaseProcess p process).2 ∧
      Reaped p (kernelThreadReleaseProcess p process).2 := by
  have h1 := releaseThreads_spec process (List.range p.threadSlots) p false h
  unfold kernelThreadReleaseProcess
  rcases hr : releaseThreads process p (List.range p.threadSlots) false with ⟨⟨status, p₁⟩, found⟩
  rw [hr] at h1
  obtain ⟨h2, h3⟩ := h1
  cases status
  case ok =>
    obtain ⟨R, Q, S, D, h2⟩ := h2
    exact ⟨⟨R, Q, S, D, h2.trim⟩, h3.trans (reaped_trim p₁)⟩
  all_goals exact ⟨h2, h3⟩

end

end Astra
