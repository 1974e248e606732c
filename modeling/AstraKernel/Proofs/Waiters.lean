import AstraKernel.Proofs.Waits

/-!
# The threads that wait on a queue

What the pool's calls do to the set of threads that wait on one queue, for those who own queues: a
wake takes one thread off it, a thread that blocks joins the queues it names, and nothing else adds
to it.
-/

namespace Astra

open Function List

/-- A thread waits on a queue, with one member of its wait set or with several. -/
def Waits (p : Pool) (t : Slot) (q : QueueRef) : Prop :=
  validThread p t ∧ WaitsOn p.waits t q

instance (p : Pool) (t : Slot) (q : QueueRef) : Decidable (Waits p t q) :=
  inferInstanceAs (Decidable (_ ∧ ∃ m, m < _ ∧ _))

def waitersOf (p : Pool) (q : QueueRef) : Finset Slot :=
  (Finset.range p.threadSlots).filter fun t => Waits p t q

/-- The queues that a call names for a thread to block on. -/
def ThreadOp.names : ThreadOp → QueueRef → Prop
  | .blockUntil _ queue _ _ _ _ _ _ => fun q => queue = some q
  | .blockWaitSet _ specs _ _ _ _ _ => fun q => ∃ spec ∈ specs, spec.queue = some q
  | .callBlock t _ _ _ _ => fun q => q = .call t
  | .waitForDeath target _ _ _ _ _ _ => fun q => q = .death target
  | _ => fun _ => False

section

variable {p p' p₁ : Pool} {R : ℕ → List Slot} {Q : QueueRef → List Registration}
  {S : Finset Registration} {D : Slot → List Slot} {t : Slot} {q : QueueRef}

theorem Healthy.waits_blocked (h : Healthy p) (hw : Waits p t q) : p.state t = .blocked := by
  obtain ⟨R, Q, S, D, h⟩ := h
  obtain ⟨hv, m, hm, -⟩ := hw
  exact ((h.queued.waiting t hv).1 (by omega)).1

theorem Healthy.waits_lt (h : Healthy p) (hw : Waits p t q) : t < p.threadSlots := by
  obtain ⟨R, Q, S, D, h⟩ := h
  exact h.queued.slot t hw.1

theorem Healthy.mem_waitersOf (h : Healthy p) : t ∈ waitersOf p q ↔ Waits p t q := by
  simp only [waitersOf, Finset.mem_filter, Finset.mem_range]
  exact ⟨And.right, fun hw => ⟨h.waits_lt hw, hw⟩⟩

theorem Sound.waits_iff (h : Sound p R Q S D none) : Waits p t q ↔ ∃ m, (t, m) ∈ Q q := by
  constructor
  · rintro ⟨-, m, -, hm⟩
    exact ⟨m, (h.queued.waits.queued _ _).1 hm⟩
  · rintro ⟨m, hm⟩
    obtain ⟨hv, hlt⟩ := (h.queued.linked t m).1 (h.queued.waits.mem hm)
    exact ⟨hv, m, hlt, (h.queued.waits.queued _ _).2 hm⟩

theorem Waits.still (h : Still p p' t) (hv : validThread p' t ↔ validThread p t) :
    Waits p' t q ↔ Waits p t q := by
  rw [Waits, Waits, WaitsOn.still h, hv]

variable {W : Finset Slot} {mode : KernelThreadWaitMode} {specs : List KernelThreadWaitSpec}
  {already : Option QueueRef} {x : Slot} {deadline k timeoutResult : ℕ}

theorem Waits.of_ended {e : Ending} (h : Ended p p' already k t e) : ¬ Waits p' t q := by
  rintro ⟨-, m, hm, -⟩
  have := h.members
  omega

theorem Progress.waits {W : Slot → Ending → Prop}
    (h : Progress p p' already k W) (hw : Waits p' t q) : Waits p t q := by
  have hv : validThread p' t ↔ validThread p t := by rw [validThread, h.occupied]; rfl
  rcases h.thread t with h1 | ⟨h1, -⟩ | ⟨e, -, h1⟩
  · exact (Waits.still h1.still hv).1 hw
  · exact (Waits.still h1 hv).1 hw
  · exact absurd hw (Waits.of_ended h1)

theorem Calm.waits (h : Calm p p') : Waits p' t q ↔ Waits p t q :=
  Waits.still (h.still t) (by rw [validThread, h.occupied]; rfl)

theorem Started.waits (h : Started p p' t specs deadline timeoutResult mode) :
    Waits p' x q ↔ x ≠ t ∧ Waits p x q ∨ x = t ∧ ∃ spec ∈ specs, spec.queue = some q := by
  have hv : ∀ x, validThread p' x ↔ validThread p x := by
    obtain ⟨w, d, rfl⟩ := h.eq
    exact fun x => Iff.rfl
  rcases eq_or_ne x t with rfl | hne
  · simp only [ne_eq, not_true, false_and, false_or, true_and]
    constructor
    · rintro ⟨-, m, -, hm⟩
      rw [h.row m, Option.bind_eq_some_iff] at hm
      obtain ⟨spec, hs, hq⟩ := hm
      exact ⟨spec, mem_of_getElem? hs, hq⟩
    · rintro ⟨spec, hs, hq⟩
      obtain ⟨m, hm, hget⟩ := getElem_of_mem hs
      refine ⟨(hv x).2 h.valid, m, h.members ▸ hm, ?_⟩
      rw [h.row m, List.getElem?_eq_getElem hm, hget]
      exact hq
  · simp [hne, Waits.still (h.others x hne) (hv x)]

theorem Effect.waits {B C : Slot → Prop} {W : Slot → Ending → Prop} (heff : Effect p p' B C W)
    (hB : ∀ x, ¬ B x) (hh : Healthy p') (hw : Waits p' t q) : Waits p t q := by
  have hb := hh.waits_blocked hw
  cases heff with
  | calm hc => exact hc.waits.1 hw
  | aside x hx =>
    have hne : t ≠ x := by
      rintro rfl
      exact hx.after hb
    exact (Waits.still (hx.still t hne) (by rw [validThread, hx.occupied t hne]; rfl)).1 hw
  | began x hC hx =>
    obtain ⟨rows, rfl⟩ := hx.eq
    exact hw
  | started x data specs deadline timeoutResult mode hx hd hst => exact absurd hx (hB x)
  | observed x observer hx hn hp =>
    subst hp
    exact hw
  | ended hx => exact hx.waits hw
  | reaped hx => exact (Waits.still (hx.still t) ⟨fun h1 => (hx.valid t h1).1, fun _ => hw.1⟩).1 hw

theorem blockWaitSet_waits (h : Healthy p)
    (now deadline timeoutResult : ℕ) (rowMemory heapMemory : Bool)
    (hwait : Waitable p t specs mode)
    (hw : Waits (blockWaitSet p t specs now deadline timeoutResult mode rowMemory heapMemory).2 x q) :
    Waits p x q ∨ x = t ∧ ∃ spec ∈ specs, spec.queue = some q := by
  obtain ⟨R, Q, S, D, h⟩ := h
  rcases blockWaitSet_spec h specs now deadline timeoutResult mode rowMemory heapMemory hwait with
    ⟨p', he, -, hst⟩ | ⟨status, w, -, he, -, hc⟩
  · rw [he] at hw
    exact (hst.waits.1 hw).imp And.right id
  · rw [he] at hw
    exact .inl (hc.waits.1 hw)

theorem waitForDeath_waits (h : Healthy p) {target waiter : Slot} {now : ℕ}
    {rowMemory heapMemory : Bool} (hn : q ≠ .death target)
    (hw : Waits (kernelThreadWaitForDeath p target waiter now deadline timeoutResult rowMemory
      heapMemory).1.2 t q) : Waits p t q := by
  unfold kernelThreadWaitForDeath at hw
  by_cases ht : timeoutResult = 0
  · rwa [if_pos ht] at hw
  rw [if_neg ht] at hw
  rcases hprep : kernelThreadPrepareDeathWait p target waiter with ⟨status, answer⟩
  rw [hprep] at hw
  dsimp only at hw
  by_cases hr : status ≠ .ok ∨ answer.ready = true
  · rwa [if_pos hr] at hw
  rw [if_neg hr] at hw
  simp only [not_or, not_not, Bool.not_eq_true] at hr
  obtain ⟨rfl, hready⟩ := hr
  obtain ⟨hvt, -, -, hq⟩ := kernelThreadPrepareDeathWait_eq hprep
  have hwait : Waitable (p.setData waiter 1 0) waiter [⟨answer.spec.queue, answer.spec.sequence⟩]
      .one := by
    intro spec hspec
    rw [mem_singleton.1 hspec, hq hready]
    exact hvt
  have hh : Healthy (p.setData waiter 1 0) := by
    obtain ⟨R, Q, S, D, h⟩ := h
    exact ⟨R, Q, S, D, h.setData _⟩
  have hblock : Waits (blockWaitSet (p.setData waiter 1 0) waiter
      [⟨answer.spec.queue, answer.spec.sequence⟩] now deadline timeoutResult .one rowMemory
      heapMemory).2 t q := by
    unfold kernelThreadBlockUntil at hw
    generalize blockWaitSet (p.setData waiter 1 0) waiter
      [⟨answer.spec.queue, answer.spec.sequence⟩] now deadline timeoutResult .one rowMemory
      heapMemory = r at hw
    obtain ⟨status, p'⟩ := r
    cases status <;> exact hw
  refine (blockWaitSet_waits hh _ _ _ _ _ hwait hblock).resolve_right ?_
  rintro ⟨-, spec, hspec, hs⟩
  rw [mem_singleton.1 hspec, hq hready] at hs
  exact hn (Option.some.inj hs).symm

theorem step_waits (h : Healthy p) {op : ThreadOp} (hs : Sane p op) (hn : ¬ op.names q)
    (hw : Waits (p.step op).2 t q) : Waits p t q := by
  obtain ⟨hh, heff⟩ := step_effect h op hs
  cases op with
  | blockUntil x queue expectedSequence now deadline timeoutResult rowMemory heapMemory =>
    have hwait : Waitable p x [⟨queue, expectedSequence⟩] .one :=
      waitable_of_outer fun spec hspec => by
        rw [mem_singleton.1 hspec]
        exact hs.1
    refine (blockWaitSet_waits h _ _ _ _ _ hwait hw).resolve_right ?_
    rintro ⟨-, spec, hspec, hq⟩
    rw [mem_singleton.1 hspec] at hq
    exact hn hq
  | blockWaitSet x specs now deadline timeoutResult rowMemory heapMemory =>
    exact (blockWaitSet_waits h _ _ _ _ _ (waitable_of_outer hs.1) hw).resolve_right fun hx => hn hx.2
  | callBlock x now deadline rowMemory heapMemory =>
    change Waits (kernelThreadCallBlock p x now deadline rowMemory heapMemory).2 t q at hw
    unfold kernelThreadCallBlock at hw
    split_ifs at hw
    · exact hw
    refine (blockWaitSet_waits h _ _ _ _ _ waitable_call hw).resolve_right ?_
    rintro ⟨-, spec, hspec, hq⟩
    rw [mem_singleton.1 hspec] at hq
    exact hn (Option.some.inj hq).symm
  | waitForDeath target waiter now deadline timeoutResult rowMemory heapMemory =>
    exact waitForDeath_waits h hn hw
  | _ => exact heff.waits (fun _ hB => hB) hh hw

theorem Waits.advance {queue : QueueRef} :
    Waits { p with waits := p.waits.advance queue } t q ↔ Waits p t q := Iff.rfl

theorem wakeOne_waits (h : Healthy p) (queue : QueueRef) (result : ℕ) :
    ((∀ x, ¬ Waits p x queue) ∧ kernelThreadWakeOne p queue result
        = ((.noRunnable, { p with waits := p.waits.advance queue }), none)) ∨
      ∃ t p', kernelThreadWakeOne p queue result = ((.ok, p'), some t) ∧ Waits p t queue ∧
        p'.state t = .ready ∧ Healthy p' ∧ p'.threadSlots = p.threadSlots ∧
        (∀ q, ¬ Waits p' t q) ∧ ∀ x, x ≠ t → p'.state x = p.state x ∧
          ∀ q, Waits p' x q ↔ Waits p x q := by
  obtain ⟨R, Q, S, D, h⟩ := h
  rcases kernelThreadWakeOne_spec h queue (fun _ _ => .inl rfl) result with
    ⟨hQ, he⟩ | ⟨r, l, p', hQ, he, hw, hc⟩
  · refine .inl ⟨fun x hx => ?_, he⟩
    obtain ⟨m, hm⟩ := h.waits_iff.1 hx
    simp [hQ] at hm
  · have hr : Waits p r.1 queue := h.waits_iff.2 ⟨r.2, by simp [hQ]⟩
    have hready : p'.state r.1 = .ready := hc.state
    have hstate : ∀ x, x ≠ r.1 → p'.state x = p.state x := by
      obtain ⟨prio, rq, w, dn, d, rfl, -⟩ := hc.eq
      exact fun x hx => update_of_ne hx _ _
    refine .inr ⟨r.1, p', he, hr, hready, hw.healthy, hw.progress.threadSlots, fun q hq => ?_,
      fun x hx => ?_⟩
    · have := hw.healthy.waits_blocked hq
      simp [hready] at this
    · have hv : validThread p' x ↔ validThread p x := by
        rw [validThread, hw.progress.occupied]
        rfl
      refine ⟨hstate x hx, fun q => ?_⟩
      rcases hw.progress.thread x with h1 | ⟨h1, -⟩ | ⟨e, ⟨h1, -⟩, -⟩
      · exact (Waits.still h1.still hv).trans Waits.advance
      · exact (Waits.still h1 hv).trans Waits.advance
      · exact absurd h1 hx

structure WokeSome (p p' : Pool) (q : QueueRef) (W : Finset Slot) : Prop where
  healthy : Healthy p'
  waited : ∀ x ∈ W, Waits p x q
  ready : ∀ x ∈ W, p'.state x = .ready
  off : ∀ x ∈ W, ∀ q, ¬ Waits p' x q
  state : ∀ x, x ∉ W → p'.state x = p.state x
  waits : ∀ x, x ∉ W → ∀ q, Waits p' x q ↔ Waits p x q

theorem WokeSome.refl (h : Healthy p) (q : QueueRef) : WokeSome p p q ∅ :=
  ⟨h, by simp, by simp, by simp, fun _ _ => rfl, fun _ _ _ => Iff.rfl⟩

theorem WokeSome.waits_of (h : WokeSome p p' q W) {q' : QueueRef}
    (hw : Waits p' x q') : x ∉ W ∧ Waits p x q' := by
  have hx : x ∉ W := fun hx => h.off x hx q' hw
  exact ⟨hx, (h.waits x hx q').1 hw⟩

theorem WokeSome.filter_ready (h : WokeSome p p' q W) (hp : Healthy p) :
    ((waitersOf p q).filter fun t => p'.state t = .ready) = W := by
  ext x
  rw [Finset.mem_filter, hp.mem_waitersOf]
  constructor
  · rintro ⟨hw, hr⟩
    by_contra hx
    rw [h.state x hx, hp.waits_blocked hw] at hr
    simp at hr
  · exact fun hx => ⟨h.waited x hx, h.ready x hx⟩

theorem WokeSome.wakeOne (h : WokeSome p p₁ q W) (hp : Healthy p) (result : ℕ)
    (hlt : W.card < (waitersOf p q).card) :
    ∃ t p', kernelThreadWakeOne p₁ q result = ((.ok, p'), some t) ∧ t ∉ W ∧
      WokeSome p p' q (insert t W) := by
  have hsub : W ⊆ waitersOf p q := fun x hx => hp.mem_waitersOf.2 (h.waited x hx)
  rcases wakeOne_waits h.healthy q result with ⟨hnone, -⟩ | ⟨t, p', he, ht, hr, hh, -, hoff, hrest⟩
  · obtain ⟨x, hx, hxW⟩ : ∃ x ∈ waitersOf p q, x ∉ W := by
      by_contra hall
      push Not at hall
      exact absurd (Finset.card_le_card hall) (by omega)
    exact absurd ((h.waits x hxW q).2 (hp.mem_waitersOf.1 hx)) (hnone x)
  · obtain ⟨htW, htw⟩ := h.waits_of ht
    refine ⟨t, p', he, htW, hh, fun x hx => ?_, fun x hx => ?_, fun x hx => ?_, fun x hx => ?_,
      fun x hx => ?_⟩
    · rcases Finset.mem_insert.1 hx with rfl | hx
      · exact htw
      · exact h.waited x hx
    · rcases Finset.mem_insert.1 hx with rfl | hx
      · exact hr
      · exact (hrest x (ne_of_mem_of_not_mem hx htW)).1.trans (h.ready x hx)
    · rcases Finset.mem_insert.1 hx with rfl | hx
      · exact hoff
      · exact fun q' hw => h.off x hx q' (((hrest x (ne_of_mem_of_not_mem hx htW)).2 q').1 hw)
    · obtain ⟨hne, hxW⟩ := not_or.1 (mt Finset.mem_insert.2 hx)
      exact (hrest x hne).1.trans (h.state x hxW)
    · obtain ⟨hne, hxW⟩ := not_or.1 (mt Finset.mem_insert.2 hx)
      exact fun q' => ((hrest x hne).2 q').trans (h.waits x hxW q')

theorem wakeAll_waits (h : Healthy p) (queue : QueueRef) (result : ℕ) :
    ∃ p' n, kernelThreadWakeAll p queue result = ((.ok, p'), n) ∧ Healthy p' ∧
      (∀ x, ¬ Waits p' x queue) ∧ ∀ x q, Waits p' x q → Waits p x q := by
  obtain ⟨R, Q, S, D, h⟩ := h
  obtain ⟨p', n, he, hw, hempty⟩ := kernelThreadWakeAllDetail_spec h queue result 0 false
  refine ⟨p', n, he, hw.healthy, fun x hx => ?_, fun x q hx => hw.progress.waits hx⟩
  obtain ⟨-, m, -, hm⟩ := hx
  exact hempty _ hm

structure WokeAll (p p' : Pool) (q : QueueRef) (result : ℕ) : Prop where
  healthy : Healthy p'
  empty : ∀ x, ¬ Waits p' x q
  waits : ∀ x q', Waits p' x q' → Waits p x q'
  woken : ∀ x, Waits p x q → p'.state x = .ready ∧ p'.data x 0 = result
  kept : ∀ x, ¬ Waits p x q → p'.state x = p.state x ∧ p'.data x = p.data x ∧
    ∀ q', Waits p' x q' ↔ Waits p x q'

theorem endData_zero (data : ℕ → ℕ) (mode : KernelThreadWaitMode) (member : Option ℕ)
    (result detail : ℕ) (one : Bool) : endData data mode member result detail one 0 = result := by
  unfold endData
  split_ifs <;> simp

section

variable (h : Healthy p)
include h

theorem wakeAll_woke (queue : QueueRef) (result : ℕ) :
    ∃ p' n, kernelThreadWakeAll p queue result = ((.ok, p'), n) ∧ WokeAll p p' queue result := by
  obtain ⟨p₁, n, he, hh, hempty, hw⟩ := wakeAll_waits h queue result
  obtain ⟨R, Q, S, D, hs⟩ := h
  have hlen : (Q queue).length ≤ (p.waits.queue queue).count := (hs.queued.waits.count queue).ge
  obtain ⟨p', n', h1, h2, -, h3⟩ := wakeQueue_spec queue result 0 false _ 0 (hs.advance queue) hlen
  have hv : validWaitQueueHeader p queue := validWaitQueueHeader_of hs.queued.waits hs.queued.live queue
  have he' : kernelThreadWakeAll p queue result = ((.ok, p'), n') := by
    unfold kernelThreadWakeAll kernelThreadWakeAllDetail
    rw [if_neg (not_not.2 hv), h1]
  obtain rfl : p' = p₁ := congrArg (fun r => r.1.2) (he'.symm.trans he)
  have hdead : ∀ x, p'.state x = .dead → p.state x = .dead := h3
  have hvalid : ∀ x, validThread p' x ↔ validThread p x := fun x => by
    rw [validThread, h2.progress.occupied]
    rfl
  refine ⟨p', n, he, hh, hempty, hw, fun x hx => ?_, fun x hx => ?_⟩
  · have hb : p.state x = .blocked := Healthy.waits_blocked ⟨R, Q, S, D, hs⟩ hx
    rcases h2.progress.thread x with h4 | ⟨h4, -⟩ | ⟨e, ⟨m, -, rfl⟩, h4⟩
    · exact absurd hb h4.before
    · exact absurd ((Waits.still h4 (hvalid x)).2 hx) (hempty x)
    · refine ⟨h4.after.resolve_right fun h5 => ?_, ?_⟩
      · rw [hdead x h5] at hb
        simp at hb
      · rw [h4.data]
        exact endData_zero _ _ _ _ _ _
  · rcases h2.progress.thread x with h4 | ⟨h4, h5⟩ | ⟨e, ⟨m, hm, -⟩, h4⟩
    · refine ⟨h4.after.elim id fun h5 => ?_, h4.still.data,
        fun q' => (Waits.still h4.still (hvalid x)).trans Waits.advance⟩
      rw [h5]
      exact (hdead x h5).symm
    · exact ⟨h5, h4.data, fun q' => (Waits.still h4 (hvalid x)).trans Waits.advance⟩
    · exact absurd (hs.waits_iff.2 ⟨m, (hs.queued.waits.queued _ _).1 hm⟩) hx

theorem Healthy.waitQueueCount_ne_max (q : QueueRef) :
    kernelThreadWaitQueueCount p q ≠ uint32Max := by
  obtain ⟨R, Q, S, D, h⟩ := h
  rw [waitQueueCount_of h.queued.waits h.queued.live]
  exact length_ne_max h.queued.slot h.queued.slots h.queued.waits h.queued.live q

theorem Healthy.waitQueueCount_ne (hw : Waits p t q) : kernelThreadWaitQueueCount p q ≠ 0 := by
  obtain ⟨R, Q, S, D, h⟩ := h
  obtain ⟨m, hm⟩ := h.waits_iff.1 hw
  rw [waitQueueCount_of h.queued.waits h.queued.live]
  exact fun h1 => by simp [eq_nil_of_length_eq_zero h1] at hm

theorem Healthy.initQueues {f : QueueRef → KernelThreadWaitQueue}
    (hf : ∀ q, f q = p.waits.queue q ∨ f q = kernelThreadWaitQueueInit ∧ ∀ t, ¬ Waits p t q) :
    Healthy { p with waits := { p.waits with queue := f } } := by
  obtain ⟨R, Q, S, D, h⟩ := h
  have hnil : ∀ q, (∀ t, ¬ Waits p t q) → Q q = [] := fun q hq =>
    eq_nil_iff_forall_not_mem.2 fun r hr => hq r.1 (h.waits_iff.2 ⟨r.2, hr⟩)
  have hw : WaitShape { p.waits with queue := f } Q S := { h.queued.waits with
    lists := { h.queued.waits.lists with
      head := fun q => by
        rcases hf q with h1 | ⟨h1, h2⟩
        · exact (congrArg _ h1).trans (h.queued.waits.lists.head q)
        · exact (congrArg _ h1).trans (by rw [hnil q h2]; rfl) }
    tail := fun q => by
      rcases hf q with h1 | ⟨h1, h2⟩
      · exact (congrArg _ h1).trans (h.queued.waits.tail q)
      · exact (congrArg _ h1).trans (by rw [hnil q h2]; rfl)
    count := fun q => by
      rcases hf q with h1 | ⟨h1, h2⟩
      · exact (congrArg _ h1).trans (h.queued.waits.count q)
      · exact (congrArg _ h1).trans (by rw [hnil q h2]; rfl) }
  refine ⟨R, Q, S, D, { h.queued with waits := hw }, { h.donated with }, { h.steady with
    sequence := fun q => ?_ }⟩
  rcases hf q with h1 | ⟨h1, -⟩
  · exact (congrArg KernelThreadWaitQueue.sequence h1).symm ▸ h.steady.sequence q
  · exact (congrArg KernelThreadWaitQueue.sequence h1).symm ▸ ⟨one_pos, by decide⟩

end

theorem waiterCountWalk_spec (h : WaitShape p.waits Q S) :
    ∀ (fuel : ℕ) (m l : List Registration), Q q = l ++ m → m.length ≤ fuel →
      ∀ prior : List Slot, waiterCountWalk p fuel prior m.head?
        = ((m.map Prod.fst).toFinset \ prior.toFinset).card
  | _, [], _, _, _, _ => by simp [waiterCountWalk]
  | 0, _ :: _, _, _, hf, _ => by simp at hf
  | fuel + 1, r :: m, l, hQ, hf, prior => by
    obtain ⟨hnext, -⟩ := h.lists.at_split hQ
    have ih := waiterCountWalk_spec h fuel m (l ++ [r]) (by simpa using hQ)
      (by simpa using Nat.le_of_succ_le_succ hf) (r.1 :: prior)
    rw [List.head?_cons, waiterCountWalk, hnext, ih]
    by_cases hr : r.1 ∈ prior
    · rw [if_pos hr, Nat.zero_add]
      congr 1
      ext x
      simp only [toFinset_cons, map_cons, Finset.mem_sdiff, Finset.mem_insert,
        mem_toFinset]
      constructor
      · exact fun ⟨h1, h2⟩ => ⟨.inr h1, fun h3 => h2 (.inr h3)⟩
      · rintro ⟨h1 | h1, h2⟩
        · exact absurd (h1 ▸ hr) h2
        · refine ⟨h1, fun h3 => ?_⟩
          rcases h3 with rfl | h3
          · exact h2 hr
          · exact h2 h3
    · have hsplit : ((r :: m).map Prod.fst).toFinset \ prior.toFinset
          = insert r.1 ((m.map Prod.fst).toFinset \ (r.1 :: prior).toFinset) := by
        ext x
        simp only [toFinset_cons, map_cons, Finset.mem_sdiff, Finset.mem_insert,
          mem_toFinset]
        by_cases hx : x = r.1
        · simp [hx, hr]
        · simp [hx]
      rw [if_neg hr, hsplit, Finset.card_insert_of_notMem (by simp), Nat.add_comm]

theorem validWaitQueueWalk_spec (h : Sound p R Q S D none) :
    ∀ (fuel : ℕ) (m l : List Registration), Q q = l ++ m → m.length = fuel →
      validWaitQueueWalk p q fuel l.getLast? m.head? = true
  | _, [], l, hQ, rfl => by
    have htail := h.queued.waits.tail q
    rw [hQ, append_nil] at htail
    simp [validWaitQueueWalk, htail]
  | 0, _ :: _, _, _, hf => by simp at hf
  | fuel + 1, r :: m, l, hQ, hf => by
    have hr : r ∈ Q q := by simp [hQ]
    have hS := h.queued.waits.mem hr
    obtain ⟨hv, hm⟩ := (h.queued.linked r.1 r.2).1 hS
    have hb := ((h.queued.waiting r.1 hv).1 (by omega)).1
    obtain ⟨hnext, hprev⟩ := h.queued.waits.lists.at_split hQ
    have ih := validWaitQueueWalk_spec h fuel m (l ++ [r]) (by simpa using hQ) (by simpa using hf)
    rw [List.head?_cons, validWaitQueueWalk, registrationThread_live h.queued.live hS]
    dsimp only
    rw [if_neg, hnext]
    · simpa using ih
    · simp only [hv, hb, (h.queued.waits.queued r q).2 hr, hprev, not_true, ne_eq, false_or, or_false]
      omega

theorem waiterCount_eq (h : Healthy p) (q : QueueRef) :
    kernelThreadWaitQueueWaiterCount p q = (waitersOf p q).card := by
  have hmem := fun t => h.mem_waitersOf (t := t) (q := q)
  obtain ⟨R, Q, S, D, h⟩ := h
  have hhead := h.queued.waits.lists.head q
  have hcount := h.queued.waits.count q
  have hwalk := validWaitQueueWalk_spec h (q := q) _ (Q q) [] rfl rfl
  have hcard := waiterCountWalk_spec h.queued.waits (q := q) _ (Q q) [] rfl le_rfl []
  have hvalid : validWaitQueue p q := by
    refine ⟨validWaitQueueHeader_of h.queued.waits h.queued.live q, ?_⟩
    rw [hhead, hcount]
    exact hwalk
  rw [kernelThreadWaitQueueWaiterCount, if_pos hvalid, hhead, hcount, hcard]
  congr 1
  ext t
  rw [hmem, h.waits_iff]
  simp

end

end Astra
