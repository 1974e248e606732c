import AstraKernel.Proofs.IrqRuns

/-!
# The interrupt endpoints over a run

The waiters of every endpoint are watched over, and the controller's masks are what the kernel takes
them to be, up to the first stranding or forgetting step and not after it until that is undone.
-/

namespace Astra

open Function List

/-- The controller has enabled exactly the sources that the kernel takes to be enabled. -/
def IrqAccurate (s : IrqState) : Prop :=
  ∀ source < kernelIrqSourceCount, s.enabled source = true ↔ Deliverable s source

section

variable {s : IrqState}

theorem IrqSound.step (h : IrqSound s) {ev : IrqEvent} (hs : IrqSane s ev) :
    IrqStep s (s.step ev) (Strands s ev) ev.Works (Forgets s ev) := by
  cases ev with
  | thread op =>
    obtain ⟨hsane, hnames⟩ := hs
    have hw : ∀ n < kernelIrqEndpointMax, ∀ t, Waits (s.pool.step op).2 t (irqWaiters n) →
        Waits s.pool t (irqWaiters n) :=
      fun n hn t ht => step_waits h.healthy hsane (hnames n hn) ht
    exact IrqQuiet.step ⟨h.withPool (step_effect h.healthy op hsane).1 fun n hn t ht =>
      h.waits n hn t (hw n hn t ht), fun hwatched n hn t ht => hwatched n hn t (hw n hn t ht),
      fun _ ht => ⟨ht.well, ht.enabled⟩⟩
  | bindInternal binding a => exact (kernelIrqBindInternal_quiet h binding a).step
  | armInternal source a => exact (kernelIrqArmInternal_quiet h source a).step
  | maskInternal source a => exact (kernelIrqMaskInternal_quiet h source a).step
  | bind owner binding attempt a => exact (kernelIrqBind_quiet h owner binding attempt a).step
  | retain n => exact (kernelIrqHandleRetain_quiet h n True).step
  | release n a => exact (kernelIrqHandleRelease_quiet h n a).step
  | abandon n a => exact (kernelIrqAbandonUnpublished_quiet h n a).step
  | arm n a =>
    exact call_step h _ (fun ha => kernelIrqArm_outcome h ha a) fun hi => (inactive_calls hi).1 a
  | mask n a =>
    exact call_step h _ (fun ha => kernelIrqMask_outcome h ha a) fun hi => (inactive_calls hi).2.1 a
  | recover n a =>
    exact call_step h _ (fun ha => kernelIrqRecover_outcome h ha a)
      fun hi => (inactive_calls hi).2.2.1 a
  | dispatch source vector timestamp a =>
    exact (@dispatchCommon_step s source vector timestamp false a h).congr (fun _ => Iff.rfl)
      fun _ _ => iff_of_false id fun h1 => by simpa using h1.1
  | dispatchClaimed source vector timestamp a => exact @dispatchCommon_step s source vector timestamp true a h
  | ack n sequence a =>
    exact (call_step (n := n) h False (fun ha => kernelIrqAck_outcome ha sequence a)
      fun hi => (inactive_calls hi).2.2.2 sequence a).congr
        (fun _ => iff_of_false id fun h1 => h1.2) fun _ _ => Iff.rfl
  | waitSet t members multiple now deadline rowMemory heapMemory =>
    exact (@waitIrqSet_quiet s True h _ _ _ _ _ _ _ hs).step
  | revoke n a => exact (kernelIrqRevoke_quiet h n a).step
  | ownerDied owner a => exact (kernelIrqOwnerDied_quiet h owner a).step
  | serviceRevocations batchLimit a => exact (kernelIrqServiceRevocations_quiet h batchLimit a).step

@[simp] theorem irqRun_nil : s.run [] = s :=
  rfl

@[simp] theorem irqRun_cons (ev : IrqEvent) (evs : List IrqEvent) :
    s.run (ev :: evs) = (s.step ev).run evs :=
  rfl

theorem irqAlong_append {P : IrqState → IrqEvent → Prop} : ∀ (evs evs' : List IrqEvent)
    {s : IrqState}, s.Along P evs → (s.run evs).Along P evs' → s.Along P (evs ++ evs')
  | [], _, _, _, h' => h'
  | _ :: evs, evs', _, h, h' => ⟨h.1, irqAlong_append evs evs' h.2 h'⟩

theorem irqAlong_of_forall {P : IrqState → IrqEvent → Prop} : ∀ (evs : List IrqEvent)
    {s : IrqState}, (∀ s, ∀ ev ∈ evs, P s ev) → s.Along P evs
  | [], _, _ => trivial
  | _ :: evs, _, h => ⟨h _ _ mem_cons_self,
    irqAlong_of_forall evs fun s ev hev => h s ev (mem_cons_of_mem _ hev)⟩

theorem run_watched_iff : ∀ (evs : List IrqEvent) {s : IrqState}, IrqSound s → IrqWatched s →
    s.Along IrqSane evs →
      ((∀ k, IrqWatched (s.run (evs.take k))) ↔ s.Along (fun s ev => ¬ Strands s ev) evs)
  | [], s, _, hw, _ => iff_of_true (fun k => by simpa using hw) trivial
  | ev :: evs, s, h, hw, hs => by
    have hstep := h.step hs.1
    have hrest := fun hw' : IrqWatched (s.step ev) => run_watched_iff evs hstep.sound hw' hs.2
    constructor
    · intro hall
      have hw' : IrqWatched (s.step ev) := by simpa using hall 1
      exact ⟨(hstep.watched hw).1 hw', (hrest hw').1 fun k => by simpa using hall (k + 1)⟩
    · rintro ⟨hquiet, halong⟩ k
      cases k with
      | zero => exact hw
      | succ k => exact (hrest ((hstep.watched hw).2 hquiet)).2 halong k

theorem run_accurate_iff : ∀ (evs : List IrqEvent) {s : IrqState}, IrqSound s → IrqTrusted s →
    s.Along IrqSane evs → (∀ ev ∈ evs, ev.Works) →
      ((∀ k, IrqAccurate (s.run (evs.take k))) ↔ s.Along (fun s ev => ¬ Forgets s ev) evs)
  | [], s, _, ht, _, _ => iff_of_true (fun k => by simpa using (show IrqAccurate s from ht.enabled)) trivial
  | ev :: evs, s, h, ht, hs, hworks => by
    have hstep := h.step hs.1
    have hwork := hworks ev mem_cons_self
    have hrest := fun ht' : IrqTrusted (s.step ev) => run_accurate_iff evs hstep.sound ht' hs.2
      fun ev' hev' => hworks ev' (mem_cons_of_mem _ hev')
    constructor
    · intro hall
      have h1 : IrqAccurate (s.step ev) := by simpa using hall 1
      have ht' : IrqTrusted (s.step ev) := ⟨hstep.well hwork ht, h1⟩
      exact ⟨(hstep.trusted hwork ht).1 ht', (hrest ht').1 fun k => by simpa using hall (k + 1)⟩
    · rintro ⟨hkept, halong⟩ k
      cases k with
      | zero => exact ht.enabled
      | succ k => exact (hrest ((hstep.trusted hwork ht).2 hkept)).2 halong k

end

/-- The pools as they are initialised. -/
def irqInit (audit : Bool) : IrqState :=
  kernelIrqPoolInit (kernelThreadPoolInit audit)

variable (trigger : KernelIrqTrigger) (audit : Bool)

theorem irqInit_not_waits (t : Slot) (q : QueueRef) : ¬ Waits (irqInit audit).pool t q :=
  fun ht => absurd ht.1 (by simp [irqInit, kernelIrqPoolInit, kernelThreadPoolInit, validThread])

theorem irqSound_init : IrqSound (irqInit audit) := by
  have hlive : liveIrqs (irqInit audit) = ∅ :=
    Finset.filter_eq_empty_iff.2 fun n _ h1 => h1 rfl
  have hrevoking : revokingIrqs (irqInit audit) = ∅ :=
    Finset.filter_eq_empty_iff.2 fun n _ h1 => by
      simp [irqInit, kernelIrqPoolInit, freeIrqEndpoint] at h1
  refine ⟨healthy_init audit, fun n _ t ht => absurd ht (irqInit_not_waits audit t _),
    fun n h1 => absurd rfl h1, fun n h1 => h1.elim, fun source n => iff_of_false (by
      simp [irqInit, kernelIrqPoolInit, noIrqRoute]) fun h1 => h1.1 rfl,
    fun n _ => iff_of_false (by simp [irqInit, kernelIrqPoolInit]) fun h1 => h1 rfl, rfl,
    Nat.zero_lt_succ _, ?_, ?_, ?_, ?_⟩
  · rw [hlive]
    rfl
  · rw [hlive]
    rfl
  · rw [hlive]
    rfl
  · rw [hrevoking]
    rfl

theorem irqTrusted_init : IrqTrusted (irqInit audit) :=
  ⟨fun n h1 => h1.elim, fun source _ => by
    simp [Deliverable, irqInit, kernelIrqPoolInit, noIrqRoute]⟩

/-- In a run of sane calls whoever waits on an endpoint waits for what it does not have, up to the
first step that sets an event without waking them. -/
theorem run_irq_waiters (audit : Bool) (evs : List IrqEvent)
    (hs : (irqInit audit).Along IrqSane evs) :
    (∀ k, IrqWatched ((irqInit audit).run (evs.take k))) ↔
      (irqInit audit).Along (fun s ev => ¬ Strands s ev) evs :=
  run_watched_iff evs (irqSound_init audit)
    (fun _ _ t ht => absurd ht (irqInit_not_waits audit t _)) hs

/-- A controller that works, of a device that has no work. -/
def workless : IrqAnswers := ⟨true, true, true, true, true, none, true, true, true, 0⟩

/-- A controller that works, of a device that has. -/
def withWork : IrqAnswers := { workless with capture := some 7 }

/-- A source is bound to an endpoint with a capture, and armed, and a thread waits on it. -/
def waitingOnIrq (trigger : KernelIrqTrigger) : List IrqEvent :=
  [.bind 1 ⟨true, true, true, 3, trigger, 3, kernelIrqCommonVector⟩ true workless, .arm 0 workless,
    .thread (.allocate 1 101 4096 8192 0 10 ⟨true, true, true⟩), .thread (.attachHandle 0 1),
    .thread (.publish 0), .thread .takeNext,
    .waitSet 0 [.irq 0] false 0 kernelThreadDeadlineNever true true]

theorem waitingOnIrq_sane : (irqInit false).Along IrqSane (waitingOnIrq trigger) := by
  simp [waitingOnIrq, IrqState.Along, IrqSane, Sane, Admissible, Retirable, ThreadOp.names]

/-- Sane calls keep the endpoints, their routes and their counts sound. -/
theorem run_irq_sound : ∀ (evs : List IrqEvent) {s : IrqState}, IrqSound s →
    s.Along IrqSane evs → IrqSound (s.run evs)
  | [], _, h, _ => h
  | _ :: evs, _, h, hs => run_irq_sound evs (h.step hs.1).sound hs.2

theorem run_irq_sound_armed : IrqSound ((irqInit false).run (waitingOnIrq .level)) :=
  run_irq_sound _ (irqSound_init false) (waitingOnIrq_sane .level)

theorem run_irq_waiters_armed :
    (∀ k, IrqWatched ((irqInit false).run ((waitingOnIrq .level).take k))) ↔
      (irqInit false).Along (fun s ev => ¬ Strands s ev) (waitingOnIrq .level) :=
  run_irq_waiters false (waitingOnIrq .level) (waitingOnIrq_sane .level)

theorem waitingOnIrq_works : ∀ ev ∈ waitingOnIrq trigger, ev.Works := by
  have hworks : workless.Works := ⟨rfl, rfl, rfl, rfl, rfl⟩
  intro ev hev
  simp only [waitingOnIrq, mem_cons, not_mem_nil, or_false] at hev
  rcases hev with rfl | rfl | rfl | rfl | rfl | rfl | rfl
  exacts [hworks, hworks, trivial, trivial, trivial, trivial, trivial]

/-- The controller works, and the device has no work for the 64 interrupts that come: the endpoint is
quarantined, and the thread that waits on it waits on. -/
theorem storm_strands :
    let evs := waitingOnIrq .level ++ List.replicate 64 (.dispatchClaimed 3 80 0 workless)
    (irqInit false).Along IrqSane evs ∧ (∀ ev ∈ evs, ev.Works) ∧
      Waits ((irqInit false).run evs).pool 0 (irqWaiters 0) ∧
      (((irqInit false).run evs).endpoint 0).flags.storm = true := by
  intro evs
  refine ⟨irqAlong_append _ _ (waitingOnIrq_sane _) (irqAlong_of_forall _ fun s ev hev => ?_),
    fun ev hev => ?_, by decide +kernel, by decide +kernel⟩
  · rw [eq_of_mem_replicate hev]
    trivial
  · rcases mem_append.1 hev with h1 | h1
    · exact waitingOnIrq_works _ ev h1
    · rw [eq_of_mem_replicate h1]
      exact ⟨rfl, rfl, rfl, rfl, rfl⟩

/-- In a run of sane calls, with a controller that works, the sources it has enabled are those the
kernel takes to be enabled, up to the first step that leaves a claimed source masked. -/
theorem run_irq_masks (audit : Bool) (evs : List IrqEvent)
    (hs : (irqInit audit).Along IrqSane evs) (hworks : ∀ ev ∈ evs, ev.Works) :
    (∀ k, IrqAccurate ((irqInit audit).run (evs.take k))) ↔
      (irqInit audit).Along (fun s ev => ¬ Forgets s ev) evs :=
  run_accurate_iff evs (irqSound_init audit) (irqTrusted_init audit) hs hworks

/-- The interrupt of an edge-triggered endpoint that has work is queued, and its source is enabled
again. -/
theorem run_irq_masks_delivered :
    let evs := waitingOnIrq .edge ++ [.dispatchClaimed 3 80 0 withWork]
    (∀ k, IrqAccurate ((irqInit false).run (evs.take k))) ↔
      (irqInit false).Along (fun s ev => ¬ Forgets s ev) evs := by
  refine run_irq_masks false _ (irqAlong_append _ _ (waitingOnIrq_sane _) ⟨trivial, trivial⟩)
    fun ev hev => ?_
  rcases mem_append.1 hev with h1 | h1
  · exact waitingOnIrq_works _ ev h1
  · rw [mem_singleton.1 h1]
    exact ⟨rfl, rfl, rfl, rfl, rfl⟩

/-- One claimed interrupt without work, of an armed edge-triggered endpoint: its source stays masked,
and the endpoint takes it to be enabled. -/
theorem empty_edge_forgets :
    let evs := waitingOnIrq .edge ++ [.dispatchClaimed 3 80 0 workless]
    (irqInit false).Along IrqSane evs ∧ (∀ ev ∈ evs, ev.Works) ∧
      Deliverable ((irqInit false).run evs) 3 ∧ ((irqInit false).run evs).enabled 3 = false := by
  refine ⟨irqAlong_append _ _ (waitingOnIrq_sane _) ⟨trivial, trivial⟩, fun ev hev => ?_,
    by decide +kernel, by decide +kernel⟩
  rcases mem_append.1 hev with h1 | h1
  · exact waitingOnIrq_works _ ev h1
  · rw [mem_singleton.1 h1]
    exact ⟨rfl, rfl, rfl, rfl, rfl⟩

end Astra
