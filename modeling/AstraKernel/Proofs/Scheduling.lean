import AstraKernel.Proofs.Steps

/-!
# What every reachable pool looks like

The ready lists, the wait queues and the donor lists of a pool that sane calls lead to, and what is
left of a process that is retired in one.
-/

namespace Astra

open Function List

/-- The threads that are ready to run and not suspended. -/
def readyThreads (p : Pool) : Finset Slot :=
  (Finset.range p.threadSlots).filter fun t =>
    validThread p t ∧ p.state t = .ready ∧ p.suspended t = false

/-- The ready lists are the lists `R`, and hold each ready thread once, at its priority. -/
structure ReadyExact (p : Pool) (R : ℕ → List Slot) : Prop where
  links : LinkedLists p.ready.readyNext p.ready.readyPrevious p.ready.readyHead R
  tail : ∀ k, p.ready.readyTail k = (R k).getLast?
  mem : ∀ t k, t ∈ R k ↔ validThread p t ∧ p.state t = .ready ∧ p.suspended t = false
    ∧ p.prio.effectivePriority t = k
  bitmap : ∀ k, p.ready.readyBitmap.getLsbD k = true ↔ R k ≠ []
  count : p.ready.readyCount = (readyThreads p).card

/-- The wait queues are the lists `Q`, served by priority, and hold the members of the blocked
threads' wait sets. -/
structure WaitExact (p : Pool) (Q : QueueRef → List Registration) : Prop where
  links : LinkedLists (fun r => (p.waits.row r).next) (fun r => (p.waits.row r).previous)
    (fun q => (p.waits.queue q).head) Q
  tail : ∀ q, (p.waits.queue q).tail = (Q q).getLast?
  count : ∀ q, (p.waits.queue q).count = (Q q).length
  served : ∀ q, (Q q).Pairwise fun a b =>
    p.prio.effectivePriority b.1 ≤ p.prio.effectivePriority a.1
  mem : ∀ q t m, (t, m) ∈ Q q ↔
    validThread p t ∧ m < p.waits.waitMemberCount t ∧ (p.waits.row (t, m)).queue = some q
  linked : ∀ t, validThread p t → ∀ m < p.waits.waitMemberCount t, ∃ q, (t, m) ∈ Q q
  each : ∀ t, validThread p t → p.waits.waitRegistrationCount t = p.waits.waitMemberCount t
  blocked : ∀ t, validThread p t → (p.state t = .blocked ↔ p.waits.waitMemberCount t ≠ 0)

/-- The donor lists are the lists `D`, following the owners ends, and every priority is the greatest
of a thread's own and of its donors'. -/
structure DonationsExact (p : Pool) (D : Slot → List Slot) : Prop where
  links : LinkedLists p.donors.waitDonorNext p.donors.waitDonorPrevious p.donors.waitDonorHead D
  mem : ∀ t r, t ∈ D r ↔ waitOwner p t = some r
  blocked : ∀ t r, t ∈ D r → validThread p t ∧ p.state t = .blocked ∧ validThread p r
    ∧ p.state r ≠ .dead
  acyclic : Grounded (waitOwner p)
  effective : ∀ t, validThread p t → p.prio.effectivePriority t
    = max (max (throttledBase (p.prio.basePriority t) (p.prio.budgetThrottled t))
        (p.prio.inheritedPriority t)) (maxEffective p.prio.effectivePriority (D t))

section

variable {p p' : Pool} {R : ℕ → List Slot} {Q : QueueRef → List Registration}
  {S : Finset Registration} {D : Slot → List Slot} {t : Slot}

theorem sum_length_eq_card {next previous : Slot → Option Slot} {head : ℕ → Option Slot}
    (h : LinkedLists next previous head R) {n : ℕ} {T : Finset Slot}
    (hT : ∀ t, t ∈ T ↔ ∃ k < n, t ∈ R k) :
    ∑ k ∈ Finset.range n, (R k).length = T.card := by
  have hlen : ∀ k, (R k).length = (R k).toFinset.card :=
    fun k => (toFinset_card_of_nodup (h.nodup k)).symm
  have hdisj : ((Finset.range n : Finset ℕ) : Set ℕ).PairwiseDisjoint fun k => (R k).toFinset := by
    intro i _ j _ hij
    refine Finset.disjoint_left.2 fun t hi hj => hij ?_
    exact h.disjoint i j t (mem_toFinset.1 hi) (mem_toFinset.1 hj)
  simp only [hlen]
  rw [← Finset.card_biUnion hdisj]
  congr 1
  ext t
  simp [hT]

theorem Sound.readyExact (h : Sound p R Q S D none) : ReadyExact p R where
  links := h.queued.ready.lists
  tail := h.queued.ready.tail
  mem t k := by
    have := h.queued.readyMem t k
    simpa using this
  bitmap := h.queued.ready.bitmap
  count := by
    rw [h.queued.ready.count]
    refine sum_length_eq_card h.queued.ready.lists fun t => ?_
    simp only [readyThreads, Finset.mem_filter, Finset.mem_range, h.queued.readyMem]
    constructor
    · rintro ⟨-, hv, hs, hu⟩
      exact ⟨_, h.queued.effective_lt hv, hv, hs, hu, rfl, by simp⟩
    · rintro ⟨k, -, hv, hs, hu, -⟩
      exact ⟨h.queued.slot t hv, hv, hs, hu⟩

theorem Queued.each_eq (h : Queued p R Q S none) (hv : validThread p t) :
    p.waits.waitRegistrationCount t = p.waits.waitMemberCount t := by
  have hS : S.filter (·.1 = t) = (Finset.range (p.waits.waitMemberCount t)).image (Prod.mk t) := by
    ext ⟨x, m⟩
    simp only [Finset.mem_filter, Finset.mem_image, Finset.mem_range, Prod.mk.injEq]
    constructor
    · rintro ⟨hx, rfl⟩
      exact ⟨m, ((h.linked x m).1 hx).2, rfl, rfl⟩
    · rintro ⟨m', hm, rfl, rfl⟩
      exact ⟨(h.linked _ _).2 ⟨hv, hm⟩, rfl⟩
  rw [h.waits.each, hS, Finset.card_image_of_injective _ (Prod.mk_right_injective t),
    Finset.card_range]

theorem Sound.waitExact (h : Sound p R Q S D none) : WaitExact p Q where
  links := h.queued.waits.lists
  tail := h.queued.waits.tail
  count := h.queued.waits.count
  served := h.queued.served
  mem q t m := by
    constructor
    · intro hr
      obtain ⟨hv, hm⟩ := (h.queued.linked t m).1 (h.queued.waits.mem hr)
      exact ⟨hv, hm, (h.queued.waits.queued _ _).2 hr⟩
    · exact fun ⟨_, _, hq⟩ => (h.queued.waits.queued _ _).1 hq
  linked t hv m hm := (h.queued.waits.linked (t, m)).1 ((h.queued.linked t m).2 ⟨hv, hm⟩)
  each t hv := h.queued.each_eq hv
  blocked t hv := by
    have := h.queued.waiting t hv
    rw [this]
    simp

theorem Sound.donationsExact (h : Sound p R Q S D none) : DonationsExact p D where
  links := h.donated.lists
  mem t r := by rw [h.donated.waitOwner_eq, h.donated.owner]
  blocked t r ht := by
    obtain ⟨h1, h2, h3, h4, -⟩ := h.donated.ends r t ht
    exact ⟨h1, h4, h2, h3⟩
  acyclic := by
    have hw : waitOwner p = p.donors.waitOwnerSlot := funext h.donated.waitOwner_eq
    rw [hw]
    exact h.donated.grounded
  effective t hv := by
    rw [h.queued.effective t hv, PriorityTable.effectiveOf, priorityEffective,
      h.donated.exact t hv (by simp)]

/-- In every pool that sane calls lead to, the ready lists and the wait queues are exact. -/
theorem run_queues_exact (audit : Bool) (ops : List ThreadOp)
    (hs : (kernelThreadPoolInit audit).Along Sane ops) :
    ∃ R Q, ReadyExact ((kernelThreadPoolInit audit).run ops) R ∧
      WaitExact ((kernelThreadPoolInit audit).run ops) Q := by
  obtain ⟨R, Q, S, D, h⟩ := run_healthy (healthy_init audit) hs
  exact ⟨R, Q, h.readyExact, h.waitExact⟩

/-- A thread of process 2 is blocked in a call to a ready thread of process 1, and runs it at its
own priority. -/
def boostedOwner : List ThreadOp :=
  [.allocate 1 101 4096 8192 0 10 ⟨true, true, true⟩, .attachHandle 0 1, .publish 0,
    .allocate 2 102 4096 8192 0 20 ⟨true, true, true⟩, .attachHandle 1 1, .publish 1,
    .takeNext, .callBegin 1 true, .callBlock 1 0 kernelThreadDeadlineNever true true,
    .callAssign 1 (some 0)]

theorem boostedOwner_sane (p : Pool) : p.Along Sane boostedOwner := by
  simp [boostedOwner, Pool.Along, Sane, Admissible, Retirable]

theorem run_queues_exact_boosted :
    ((kernelThreadPoolInit false).run boostedOwner).state 1 = .blocked ∧
      ∃ R Q, ReadyExact ((kernelThreadPoolInit false).run boostedOwner) R ∧
        WaitExact ((kernelThreadPoolInit false).run boostedOwner) Q :=
  ⟨by decide +kernel, run_queues_exact false boostedOwner (boostedOwner_sane _)⟩

/-- In every pool that sane calls lead to, priorities are inherited exactly. -/
theorem run_donations_exact (audit : Bool) (ops : List ThreadOp)
    (hs : (kernelThreadPoolInit audit).Along Sane ops) :
    ∃ D, DonationsExact ((kernelThreadPoolInit audit).run ops) D := by
  obtain ⟨R, Q, S, D, h⟩ := run_healthy (healthy_init audit) hs
  exact ⟨D, h.donationsExact⟩

theorem run_donations_exact_boosted :
    ((kernelThreadPoolInit false).run boostedOwner).prio.effectivePriority 0 = 20 ∧
      ∃ D, DonationsExact ((kernelThreadPoolInit false).run boostedOwner) D :=
  ⟨by decide +kernel, run_donations_exact false boostedOwner (boostedOwner_sane _)⟩

/-- What is `found`: the bits of the bitmap from a priority on, the highest among `w` bits. -/
structure TopBits (bitmap : BitVec 32) (w : ℕ) (found : BitVec 32 × ℕ) : Prop where
  bits : ∀ k, found.1.getLsbD k = bitmap.getLsbD (found.2 + k)
  above : ∀ k, w ≤ k → found.1.getLsbD k = false
  set : found.1 ≠ 0

theorem TopBits.halve {bitmap m : BitVec 32} {w : ℕ} {found : BitVec 32 × ℕ}
    (h : TopBits bitmap (2 * w) found) (hm : ∀ k < 32, m.getLsbD k = decide (w ≤ k ∧ k < 2 * w)) :
    TopBits bitmap w (if found.1 &&& m ≠ 0 then (found.1 >>> w, found.2 + w) else found) := by
  split
  next hb =>
    refine ⟨fun k => ?_, fun k hk => ?_, fun hzero => hb (BitVec.eq_of_getLsbD_eq fun k hk => ?_)⟩
    · rw [BitVec.getLsbD_ushiftRight, h.bits, Nat.add_assoc]
    · rw [BitVec.getLsbD_ushiftRight]
      exact h.above _ (by omega)
    · have hbit := congrArg (·.getLsbD (k - w)) hzero
      simp only [BitVec.getLsbD_ushiftRight] at hbit
      simp only [BitVec.getLsbD_and, hm k hk]
      grind
  next hb =>
    refine ⟨h.bits, fun k hk => ?_, h.set⟩
    have hbit := congrArg (·.getLsbD k) (not_not.1 hb)
    have habove := h.above k
    grind

theorem highestReadyPriority_spec {bitmap : BitVec 32} (h : bitmap ≠ 0) :
    bitmap.getLsbD (highestReadyPriority bitmap) = true ∧
      ∀ k, highestReadyPriority bitmap < k → bitmap.getLsbD k = false := by
  have h32 : TopBits bitmap (2 * 16) (bitmap, 0) :=
    ⟨fun k => by rw [Nat.zero_add], fun k hk => BitVec.getLsbD_of_ge _ _ hk, h⟩
  have h16 := h32.halve (m := 0xffff0000#32) (by decide)
  have h8 := TopBits.halve (w := 8) (m := 0x0000ff00#32) h16 (by decide)
  have h4 := TopBits.halve (w := 4) (m := 0x000000f0#32) h8 (by decide)
  have h2 := TopBits.halve (w := 2) (m := 0x0000000c#32) h4 (by decide)
  have hlast : ∀ x, TopBits bitmap (2 * 1) x → ∃ b,
      TopBits bitmap 1 (b, if x.1 &&& 2#32 ≠ 0 then x.2 + 1 else x.2) := fun x hx => by
    have h1 := hx.halve (m := 2#32) (by decide)
    split at h1
    next hbit => exact ⟨_, by rwa [if_pos hbit]⟩
    next hbit => exact ⟨_, by rwa [if_neg hbit]⟩
  obtain ⟨b, hb⟩ : ∃ b, TopBits bitmap 1 (b, highestReadyPriority bitmap) := hlast _ h2
  have hbits := hb.bits
  have habove := hb.above
  refine ⟨?_, fun k hk => ?_⟩
  · by_contra hno
    refine hb.set (BitVec.eq_of_getLsbD_eq fun k _ => ?_)
    rcases k with _ | k
    · simpa using (hbits 0).trans (by simpa using hno)
    · simpa using habove (k + 1) (by omega)
  · have hbit := hbits (k - highestReadyPriority bitmap)
    rw [habove _ (by omega), Nat.add_sub_cancel' hk.le] at hbit
    exact hbit.symm

/-- The scheduler takes the first thread of a list, and none that can run, or waits by its owners
for one that can, is more urgent. -/
def TakesMostUrgent (p : Pool) : Prop :=
  ∃ R, ReadyExact p R ∧ ((kernelThreadTakeNext p).2 = none → ∀ k, R k = []) ∧
    ∀ next, (kernelThreadTakeNext p).2 = some next →
      (R (p.prio.effectivePriority next)).head? = some next ∧
      ∀ t r, Relation.ReflTransGen (fun t r => waitOwner p t = some r) t r →
        r ∈ R (p.prio.effectivePriority r) →
          p.prio.effectivePriority t ≤ p.prio.effectivePriority next

theorem DonationsExact.le_of_walk (h : DonationsExact p D) {r : Slot}
    (hw : Relation.ReflTransGen (fun t r => waitOwner p t = some r) t r) :
    p.prio.effectivePriority t ≤ p.prio.effectivePriority r := by
  induction hw with
  | refl => exact le_rfl
  | tail _ howner ih =>
    have hmem := (h.mem _ _).2 howner
    rw [h.effective _ (h.blocked _ _ hmem).2.2.1]
    exact ih.trans (le_max_of_le_right (maxEffective_le.1 le_rfl _ hmem))

/-- In every pool that sane calls lead to, the processor goes to the most urgent thread. -/
theorem run_most_urgent (audit : Bool) (ops : List ThreadOp)
    (hs : (kernelThreadPoolInit audit).Along Sane ops) :
    TakesMostUrgent ((kernelThreadPoolInit audit).run ops) := by
  obtain ⟨R, Q, S, D, h⟩ := run_healthy (healthy_init audit) hs
  generalize (kernelThreadPoolInit audit).run ops = p at h ⊢
  have hbitmap := h.readyExact.bitmap
  refine ⟨R, h.readyExact, ?_⟩
  unfold kernelThreadTakeNext
  split
  next hzero =>
    have hnil : ∀ k, R k = [] := fun k => by simpa [hzero] using hbitmap k
    simp [h.queued.ready.count, hnil]
  next hne =>
    obtain ⟨hset, habove⟩ := highestReadyPriority_spec hne
    obtain ⟨t, rest, hR⟩ := exists_cons_of_ne_nil ((hbitmap _).1 hset)
    obtain ⟨hv, hs, hu, he, -⟩ := (h.queued.readyMem t _).1 (hR ▸ mem_cons_self)
    obtain ⟨rq, hremove, -⟩ := h.queued.dequeue hv hs hu
    simp only [h.queued.ready.lists.head, hR, head?_cons, hv, hremove, not_true, if_false]
    refine ⟨nofun, fun next hnext => ?_⟩
    cases hnext
    rw [he, hR]
    refine ⟨rfl, fun t r hw hr => (h.donationsExact.le_of_walk hw).trans (not_lt.1 fun hlt => ?_)⟩
    have hset := (hbitmap _).2 (ne_nil_of_mem hr)
    rw [habove _ hlt] at hset
    cases hset

theorem run_most_urgent_boosted :
    TakesMostUrgent ((kernelThreadPoolInit false).run boostedOwner) :=
  run_most_urgent false boostedOwner (boostedOwner_sane _)

/-- Nothing of a thread is in a ready list, a wait queue, the deadline heap or a donor list. -/
structure Gone (p : Pool) (R : ℕ → List Slot) (Q : QueueRef → List Registration)
    (D : Slot → List Slot) (t : Slot) : Prop where
  dead : p.state t = .dead
  ready : ∀ k, t ∉ R k
  waits : ∀ q m, (t, m) ∉ Q q
  heap : t ∉ p.deadlines.heap ∧ p.deadlines.deadlinePosition t = none
  owner : ∀ r, t ∉ D r
  donors : D t = []

theorem Sound.gone (h : Sound p R Q S D none) (hv : validThread p t) (hd : p.state t = .dead) :
    Gone p R Q D t := by
  have hheap : t ∉ p.deadlines.heap := by
    intro ht
    have := (h.steady.timed t ht).2
    simp [hd] at this
  refine ⟨hd, fun k hk => ?_, fun q m hm => ?_, ⟨hheap, ?_⟩, fun r hr => ?_, ?_⟩
  · have := ((h.readyExact.mem t k).1 hk).2.1
    simp [hd] at this
  · have h1 := ((h.waitExact.mem q t m).1 hm).2.1
    have h2 := (h.waitExact.blocked t hv).2 (by omega)
    simp [hd] at h2
  · by_contra hne
    exact hheap ((h.steady.heap.mem_iff t).2 hne)
  · have := (h.donationsExact.blocked t r hr).2.1
    simp [hd] at this
  · rw [eq_nil_iff_forall_not_mem]
    exact fun x hx => (h.donationsExact.blocked x t hx).2.2.2 hd

/-- A process none of whose ready threads runs at a donated priority, and whose threads the pool
counts among the live ones, is retired, and nothing of its threads is left anywhere. -/
theorem run_retire_process (audit : Bool) (ops : List ThreadOp) (process result : ℕ)
    (hs : (kernelThreadPoolInit audit).Along Sane ops) {p : Pool}
    (hp : p = (kernelThreadPoolInit audit).run ops) (hl : ∃ t, liveIn p process t)
    (hu : Unlifted p process none)
    (hc : doomedIn p process none (List.range p.threadSlots) ≤ p.liveThreads) :
    ∃ p' n, kernelThreadRetireProcess p process result = ((.ok, p'), n) ∧
      ∃ R Q D, ReadyExact p' R ∧ WaitExact p' Q ∧ DonationsExact p' D ∧
        ∀ t, validThread p' t → p'.processSlot t = process → Gone p' R Q D t := by
  subst hp
  have hh := run_healthy (healthy_init audit) hs
  generalize (kernelThreadPoolInit audit).run ops = p at *
  obtain ⟨p₁, hr, he⟩ := retireProcessThreads_spec hh hu (by simp) result false
  have hpos : doomedIn p process none (List.range p.threadSlots) ≠ 0 := by
    obtain ⟨t, ht⟩ := hl
    obtain ⟨R, Q, S, D, h⟩ := hh
    have : 0 < doomedIn p process none (List.range p.threadSlots) :=
      countP_pos_iff.2 ⟨t, mem_range.2 (h.queued.slot t ht.1), by simp [ht]⟩
    omega
  rw [if_neg (by omega)] at he
  refine ⟨_, _, he, ?_⟩
  obtain ⟨R, Q, S, D, h⟩ := hr.woke.healthy
  have h' : Sound { p₁ with
      liveThreads := p₁.liveThreads - doomedIn p process none (List.range p.threadSlots) }
      R Q S D none :=
    Housekept.sound ⟨_, _, _, _, _, _, _, _, _, rfl⟩ h
  refine ⟨R, Q, D, h'.readyExact, h'.waitExact, h'.donationsExact, fun t hv ht => ?_⟩
  refine h'.gone hv ?_
  have hvp : validThread p t := by
    have : p₁.occupied t = true := hv
    rwa [hr.woke.progress.occupied] at this
  have hprocess : p.processSlot t = process := by
    have : p₁.processSlot t = process := ht
    rwa [hr.woke.progress.processSlot] at this
  by_cases hd : p.state t = .dead
  · rcases hr.woke.progress.state t with h1 | ⟨h1, -⟩ | h1
    · exact h1.trans hd
    · simp [hd] at h1
    · exact h1
  · obtain ⟨R₀, Q₀, S₀, D₀, h₀⟩ := hh
    exact hr.dead t ⟨h₀.queued.slot t hvp, ⟨hvp, hprocess, hd⟩, by simp⟩

theorem boostedOwner_unlifted :
    Unlifted ((kernelThreadPoolInit false).run boostedOwner) 2 none := by
  have hother : ¬ liveIn ((kernelThreadPoolInit false).run boostedOwner) 2 0 := by decide +kernel
  have hslots : ((kernelThreadPoolInit false).run boostedOwner).threadSlots = 2 := by
    decide +kernel
  obtain ⟨R, Q, S, D, h⟩ := run_healthy (healthy_init false) (boostedOwner_sane _)
  rintro t ht - ⟨-, hs⟩
  have hlt := h.queued.slot t ht.1
  rw [hslots] at hlt
  rcases Nat.le_one_iff_eq_zero_or_eq_one.1 (Nat.lt_succ_iff.1 hlt) with rfl | rfl
  · exact absurd ht hother
  · rcases hs with hs | ⟨-, s, m, ⟨hlt, hs, -⟩, -⟩
    · exact absurd hs (by decide +kernel)
    · obtain rfl := Nat.lt_one_iff.1 hlt
      exact absurd hs hother

/-- The caller's process is retired, and its donation with it. -/
theorem run_retire_process_boosted :
    ∃ p' n, kernelThreadRetireProcess ((kernelThreadPoolInit false).run boostedOwner) 2
        astraSyscallPeerDead = ((.ok, p'), n) ∧
      ∃ R Q D, ReadyExact p' R ∧ WaitExact p' Q ∧ DonationsExact p' D ∧
        ∀ t, validThread p' t → p'.processSlot t = 2 → Gone p' R Q D t :=
  run_retire_process false boostedOwner 2 astraSyscallPeerDead (boostedOwner_sane _) rfl
    ⟨1, by decide +kernel⟩ boostedOwner_unlifted (by decide +kernel)

/-- The owner's process cannot be retired: the owner is off its ready list when its donor goes. And a
thread that was never published is retired without having been counted as live. -/
theorem retire_process_corrupt :
    ((kernelThreadPoolInit false).Along Admissible boostedOwner ∧
      liveIn ((kernelThreadPoolInit false).run boostedOwner) 1 0 ∧
      (kernelThreadRetireProcess ((kernelThreadPoolInit false).run boostedOwner) 1
        astraSyscallPeerDead).1.1 = .corrupt) ∧
      liveIn ((kernelThreadPoolInit false).run (boostedOwner.take 1)) 1 0 ∧
      (kernelThreadRetireProcess ((kernelThreadPoolInit false).run (boostedOwner.take 1)) 1
        astraSyscallPeerDead).1.1 = .corrupt := by
  refine ⟨⟨by simp [boostedOwner, Pool.Along, Admissible], ?_, ?_⟩, ?_, ?_⟩ <;> decide +kernel

end

end Astra
