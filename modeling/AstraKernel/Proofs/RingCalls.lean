import AstraKernel.Proofs.RingPool

/-!
# The calls on the endpoints of a ring

Each keeps the rings sound and moves no stream of bytes. A ring that fails is left closing, its
positions as they were, with every waiter of both endpoints woken.
-/

namespace Astra

open Function List

section

variable {s s' s₁ : RingState} {n m : ℕ} {p : Pool} {r o : KernelRing}

/-- Both queues of a ring have been woken with `result`. -/
structure WokeRing (p p' : Pool) (n result : ℕ) : Prop where
  empty : ∀ endpoint t, ¬ Waits p' t (waitersOfEndpoint n endpoint)
  woken : ∀ endpoint t, Waits p t (waitersOfEndpoint n endpoint) →
    p'.state t = .ready ∧ p'.data t 0 = result

variable {position : BitVec 32} {f : KernelRing → KernelRing}
  {e endpoint endpoint' : KernelRingEndpoint} {references result : ℕ}

theorem WokeAll.ring {p₁ p' : Pool} (h : WokeAll p p₁ (waitersOfEndpoint n endpoint) result)
    (h' : WokeAll p₁ p' (waitersOfEndpoint n endpoint') result) (hne : endpoint ≠ endpoint') :
    WokeRing p p' n result := by
  refine ⟨h.endpoints h' hne, fun e t ht => ?_⟩
  by_cases h1 : Waits p t (waitersOfEndpoint n endpoint)
  · obtain ⟨h2, h3⟩ := h.woken t h1
    have hnot : ¬ Waits p₁ t (waitersOfEndpoint n endpoint') := fun h4 => by
      have := h.healthy.waits_blocked h4
      simp [h2] at this
    obtain ⟨h5, h6, -⟩ := h'.kept t hnot
    exact ⟨h5.trans h2, by rw [h6, h3]⟩
  · have he : e ≠ endpoint := by
      rintro rfl
      exact h1 ht
    obtain rfl : e = endpoint' := by cases e <;> cases endpoint <;> cases endpoint' <;> simp_all
    obtain ⟨-, -, h2⟩ := h.kept t h1
    exact h'.woken t ((h2 _).2 ht)

theorem failRing_spec (h : RingSound s) (hk : (s.ring n).kernelCopy = false)
    (hopen : (s.ring n).state = .open) (terminal : ℕ) :
    ∃ s₁ woken, failRing s n terminal = (.ok, maybeFree s₁ n, woken) ∧ RingQuiet s s₁ ∧
      s₁.ring = update s.ring n { s.ring n with
        state := .closing
        producerTerminal := terminal
        consumerTerminal := terminal } ∧ WokeRing s.pool s₁.pool n terminal := by
  have hb : (s.ring n).state ≠ .free := by simp [hopen]
  have hf := h.fits n hb
  have hgate : ¬ ¬ validRing s n := not_not.2 (h.valid_iff.2 hb)
  unfold failRing
  rw [if_neg hgate, if_neg (by simp [hopen])]
  have hpool : Healthy ({ s.setRing n fun r => { r with
      state := .closing
      producerTerminal := terminal
      consumerTerminal := terminal } with closingRings := s.closingRings + 1 } : RingState).pool :=
    h.healthy
  obtain ⟨p₁, p, woken, he, hw₁, hw⟩ := ringWakeQueues_spec hpool (producerWaiters n)
    (consumerWaiters n) terminal terminal
  have hring : WokeRing s.pool p n terminal :=
    hw₁.ring hw (by simp : KernelRingEndpoint.producer ≠ .consumer)
  simp only [RingState.setRing] at he ⊢
  rw [he]
  refine ⟨_, woken, rfl, ⟨?_, fun m => ?_⟩, rfl, hring⟩
  · refine h.record (o := { s.ring n with
        state := .closing
        producerTerminal := terminal
        consumerTerminal := terminal }) hw.healthy hb (by simp) ⟨rfl, rfl, rfl, rfl, rfl, rfl, rfl⟩
      hf.used hf.child (by simp [hopen]) (fun m _ _ endpoint t ht => hw₁.waits t _ (hw.waits t _ ht))
      fun endpoint t ht => absurd ht (hring.empty endpoint t)
  · exact .record ⟨rfl, rfl, rfl, rfl, rfl, rfl, rfl⟩ hb fun h1 => by simp [hk] at h1

theorem failRing_quiet (h : RingSound s) (hk : (s.ring n).kernelCopy = false) (terminal : ℕ) :
    RingQuiet s (failRing s n terminal).2.1 := by
  by_cases hopen : (s.ring n).state = .open
  · obtain ⟨s₁, woken, he, hq, -⟩ := failRing_spec h hk hopen terminal
    rw [he]
    exact hq.trans (maybeFree_quiet hq.sound n)
  · unfold failRing
    split
    · exact .refl h
    rename_i hv
    have hc : (s.ring n).state = .closing := by
      have hb := h.valid_iff.1 (not_not.1 hv)
      rcases hs : (s.ring n).state <;> simp_all
    rw [if_pos hc]
    exact .refl h

theorem RingSound.setRing (h : RingSound s) (hb : (s.ring n).state ≠ .free)
    (hplace : SamePlace (s.ring n) (f (s.ring n)))
    (hp : (f (s.ring n)).producerPosition = (s.ring n).producerPosition)
    (hc : (f (s.ring n)).consumerPosition = (s.ring n).consumerPosition)
    (hstate : (f (s.ring n)).state = (s.ring n).state)
    (hchild : (f (s.ring n)).childReleased = (s.ring n).childReleased)
    (hown : ∀ endpoint t, Waits s.pool t (waitersOfEndpoint n endpoint) →
      EndpointWaits (f (s.ring n)) endpoint) : RingQuiet s (s.setRing n f) := by
  have hf := h.fits n hb
  have hused : ringUsed (f (s.ring n)) ≤ (f (s.ring n)).capacity := by
    rw [ringUsed, hp, hc, hplace.capacity]
    exact hf.used
  refine ⟨?_, fun m => ?_⟩
  · exact h.record (p := s.pool) h.healthy hb (hstate ▸ hb) hplace hused (hchild.trans hf.child)
      (by rw [hstate]) (fun m _ _ endpoint t ht => ht) hown
  · exact .record (p := s.pool) hplace hb fun _ => ⟨hstate, hp, hc⟩

theorem kernelRingAbandonUnpublished_quiet (h : RingSound s) (n : ℕ) :
    RingQuiet s (kernelRingAbandonUnpublished s n) := by
  unfold kernelRingAbandonUnpublished
  split_ifs with hgate
  · exact .corrupted h
  push Not at hgate
  obtain ⟨hv, -, -, -, hp, hc⟩ := hgate
  have hq : RingQuiet s (s.setRing n fun r => { r with
      producerReferences := 0
      consumerReferences := 0 }) := by
    refine h.setRing (h.valid_iff.1 hv) ⟨rfl, rfl, rfl, rfl, rfl, rfl, rfl⟩ rfl rfl rfl rfl
      fun endpoint t ht => ?_
    cases endpoint
    · exact absurd hp (h.healthy.waitQueueCount_ne ht)
    · exact absurd hc (h.healthy.waitQueueCount_ne ht)
  exact hq.trans (maybeFree_quiet hq.sound n)

theorem KernelRing.setReferences_place (r : KernelRing) (references : ℕ)
    (endpoint : KernelRingEndpoint) : SamePlace r (r.setReferences references endpoint) := by
  cases endpoint <;> exact ⟨rfl, rfl, rfl, rfl, rfl, rfl, rfl⟩

@[simp] theorem KernelRing.setReferences_references (r : KernelRing) (references : ℕ)
    (endpoint : KernelRingEndpoint) :
    (r.setReferences references endpoint).references endpoint = references := by
  cases endpoint <;> rfl

theorem EndpointWaits.setReferences (h : EndpointWaits r e) (hr : references ≠ 0) :
    EndpointWaits (r.setReferences references endpoint) e := by
  cases e <;> cases endpoint
  · exact ⟨h.opened, h.full, hr, h.consumers⟩
  · exact ⟨h.opened, h.full, h.producers, hr⟩
  · exact ⟨h.opened, h.empty, hr, h.consumers⟩
  · exact ⟨h.opened, h.empty, h.producers, hr⟩

theorem EndpointWaits.open (h : EndpointWaits r e) : r.state = .open := by
  cases e
  · exact h.opened
  · exact h.opened

theorem RingSound.setReferences (h : RingSound s) (hb : (s.ring n).state ≠ .free)
    (endpoint : KernelRingEndpoint)
    (hr : references ≠ 0 ∨ (s.ring n).state ≠ .open) :
    RingQuiet s (s.setRing n fun _ => (s.ring n).setReferences references endpoint) := by
  refine h.setRing hb (KernelRing.setReferences_place _ _ _) ?_ ?_ ?_ ?_ fun e t ht => ?_
  · cases endpoint <;> rfl
  · cases endpoint <;> rfl
  · cases endpoint <;> rfl
  · cases endpoint <;> rfl
  · have hw := h.waits n (h.backed n hb).1 e t ht
    exact hw.setReferences (hr.resolve_right fun h1 => h1 hw.open)

theorem kernelRingHandleRetain_quiet (h : RingSound s) (n : ℕ) (endpoint : KernelRingEndpoint) :
    RingQuiet s (kernelRingHandleRetain s n endpoint).2 := by
  unfold kernelRingHandleRetain
  split
  · exact .refl h
  rename_i hgate
  push Not at hgate
  dsimp only
  split_ifs
  · exact .refl h
  · exact h.setReferences (h.valid_iff.1 hgate.1) endpoint (.inl (by omega))

theorem RingState.setRing_setRing (s : RingState) (n : ℕ) (f g : KernelRing → KernelRing) :
    (s.setRing n f).setRing n g = s.setRing n fun r => g (f r) := by
  simp [RingState.setRing]

theorem RingSound.closed (h : RingSound s) (hb : (s.ring n).state ≠ .free)
    (hplace : SamePlace (s.ring n) (f (s.ring n)))
    (hp : (f (s.ring n)).producerPosition = (s.ring n).producerPosition)
    (hc : (f (s.ring n)).consumerPosition = (s.ring n).consumerPosition)
    (hstate : (f (s.ring n)).state = (s.ring n).state)
    (hchild : (f (s.ring n)).childReleased = (s.ring n).childReleased)
    (hne : endpoint ≠ endpoint') (result result' : ℕ) :
    ∃ s' woken, (s.setRing n f).wakeQueues (waitersOfEndpoint n endpoint)
      (waitersOfEndpoint n endpoint') result result' = (true, s', woken) ∧ RingQuiet s s' := by
  have hf := h.fits n hb
  have hused : ringUsed (f (s.ring n)) ≤ (f (s.ring n)).capacity := by
    rw [ringUsed, hp, hc, hplace.capacity]
    exact hf.used
  have hpool : Healthy (s.setRing n f).pool := h.healthy
  obtain ⟨p₁, p, woken, he, hw₁, hw⟩ := ringWakeQueues_spec hpool (waitersOfEndpoint n endpoint)
    (waitersOfEndpoint n endpoint') result result'
  refine ⟨_, woken, he, ?_, fun m => ?_⟩
  · exact h.record hw.healthy hb (hstate ▸ hb) hplace hused (hchild.trans hf.child)
      (by rw [hstate]; rfl) (fun m _ _ e t ht => hw₁.waits t _ (hw.waits t _ ht))
      fun e t ht => absurd ht (hw₁.endpoints hw hne e t)
  · exact .record hplace hb fun _ => ⟨hstate, hp, hc⟩

theorem closeEndpoint_quiet (h : RingSound s) (hb : (s.ring n).state ≠ .free)
    (endpoint : KernelRingEndpoint) :
    RingQuiet s (closeEndpoint (s.setRing n fun r => r.setReferences 0 endpoint) n endpoint) := by
  unfold closeEndpoint
  rw [RingState.setRing_setRing, RingState.setRing_setRing]
  cases endpoint with
  | producer =>
    obtain ⟨s', woken, he, hq⟩ := h.closed hb (f := fun r => { r.setReferences 0 .producer with
        producerTerminal := astraSyscallClosed
        consumerTerminal := astraSyscallPeerDead }) ⟨rfl, rfl, rfl, rfl, rfl, rfl, rfl⟩ rfl rfl rfl
      rfl (by simp : KernelRingEndpoint.producer ≠ .consumer) astraSyscallClosed
      astraSyscallPeerDead
    simp only [waitersOfEndpoint] at he
    rw [he]
    exact hq
  | consumer =>
    obtain ⟨s', woken, he, hq⟩ := h.closed hb (f := fun r => { r.setReferences 0 .consumer with
        consumerTerminal := astraSyscallClosed
        producerTerminal := astraSyscallPeerDead }) ⟨rfl, rfl, rfl, rfl, rfl, rfl, rfl⟩ rfl rfl rfl
      rfl (by simp : KernelRingEndpoint.consumer ≠ .producer) astraSyscallClosed
      astraSyscallPeerDead
    simp only [waitersOfEndpoint] at he
    rw [he]
    exact hq

theorem kernelRingHandleRelease_quiet (h : RingSound s) (n : ℕ) (endpoint : KernelRingEndpoint) :
    RingQuiet s (kernelRingHandleRelease s n endpoint) := by
  unfold kernelRingHandleRelease
  split_ifs with hgate
  · exact .corrupted h
  push Not at hgate
  have hb := h.valid_iff.1 hgate.1
  have hself : (s.setRing n fun r => r.setReferences (r.references endpoint - 1) endpoint).ring n
      = (s.ring n).setReferences ((s.ring n).references endpoint - 1) endpoint := update_self ..
  have hstate : ((s.ring n).setReferences ((s.ring n).references endpoint - 1) endpoint).state
      = (s.ring n).state := by cases endpoint <;> rfl
  dsimp only
  rw [hself, KernelRing.setReferences_references, hstate]
  split
  · rename_i hlast
    have hset : (s.setRing n fun r => r.setReferences (r.references endpoint - 1) endpoint)
        = s.setRing n fun r => r.setReferences 0 endpoint := by
      simp only [RingState.setRing, hlast.1]
    rw [hset]
    have hq := closeEndpoint_quiet h hb endpoint
    exact hq.trans (maybeFree_quiet hq.sound n)
  · rename_i hlast
    have hq : RingQuiet s (s.setRing n fun r =>
        r.setReferences (r.references endpoint - 1) endpoint) :=
      h.setReferences hb endpoint (by
        rw [ne_eq, ne_eq, ← not_and_or]
        exact hlast)
    exact hq.trans (maybeFree_quiet hq.sound n)

theorem produced_used (hu : ringUsed r ≤ r.capacity)
    (hadv : position - r.producerPosition ≤ r.capacity - ringUsed r) :
    (position - r.consumerPosition).toNat
      = (ringUsed r).toNat + (position - r.producerPosition).toNat
      ∧ position - r.consumerPosition ≤ r.capacity := by
  unfold ringUsed at *
  bv_omega

theorem consumed_used (hadv : position - r.consumerPosition ≤ ringUsed r) :
    (r.producerPosition - position).toNat + (position - r.consumerPosition).toNat
      = (ringUsed r).toNat := by
  unfold ringUsed at *
  bv_omega

theorem RingSound.produced (h : RingSound s) (hb : (s.ring n).state ≠ .free)
    (hadv : position - (s.ring n).producerPosition
      ≤ (s.ring n).capacity - ringUsed (s.ring n))
    (hw : WokeAll s.pool p (consumerWaiters n) result) :
    RingSound { s with
      pool := p
      ring := update s.ring n { s.ring n with producerPosition := position } } := by
  have hf := h.fits n hb
  obtain ⟨hsum, hle⟩ := produced_used hf.used hadv
  refine h.record (o := { s.ring n with producerPosition := position }) hw.healthy hb hb
    ⟨rfl, rfl, rfl, rfl, rfl, rfl, rfl⟩ hle hf.child rfl (fun m _ _ e t ht => hw.waits t _ ht)
    fun e t ht => ?_
  cases e with
  | consumer => exact absurd ht (hw.empty t)
  | producer =>
    have hold := h.waits n (h.backed n hb).1 .producer t (hw.waits t _ ht)
    have hfull := hold.full
    refine ⟨hold.opened, ?_, hold.producers, hold.consumers⟩
    show position - (s.ring n).consumerPosition = (s.ring n).capacity
    rw [hfull] at hadv hsum
    bv_omega

theorem RingSound.consumed (h : RingSound s) (hb : (s.ring n).state ≠ .free)
    (hadv : position - (s.ring n).consumerPosition ≤ ringUsed (s.ring n)) (hp : Healthy p)
    (hw : ∀ t q, Waits p t q → Waits s.pool t q)
    (hempty : ∀ t, Waits p t (producerWaiters n) → position = (s.ring n).consumerPosition) :
    RingSound { s with
      pool := p
      ring := update s.ring n { s.ring n with consumerPosition := position } } := by
  have hf := h.fits n hb
  have hsum := consumed_used hadv
  have hused := hf.used
  refine h.record (o := { s.ring n with consumerPosition := position }) hp hb hb
    ⟨rfl, rfl, rfl, rfl, rfl, rfl, rfl⟩ ?_ hf.child rfl (fun m _ _ e t ht => hw t _ ht)
    fun e t ht => ?_
  · show (s.ring n).producerPosition - position ≤ (s.ring n).capacity
    bv_omega
  have hold := h.waits n (h.backed n hb).1 e t (hw t _ ht)
  cases e with
  | consumer =>
    have hempty' := hold.empty
    refine ⟨hold.opened, ?_, hold.producers, hold.consumers⟩
    show (s.ring n).producerPosition - position = 0
    rw [hempty'] at hsum
    bv_omega
  | producer =>
    obtain rfl := hempty t ht
    exact hold

theorem notifyFailed_quiet (h : RingSound s) (hk : (s.ring n).kernelCopy = false) :
    RingQuiet s (notifyFailed s n).2 := by
  have hq := failRing_quiet h hk astraSyscallIoError
  unfold notifyFailed
  generalize failRing s n astraSyscallIoError = r at hq ⊢
  obtain ⟨status, s₁, woken⟩ := r
  cases status <;> exact hq

theorem RingSound.notified {s' : RingState} (h : RingSound s')
    (hk : (s.ring n).kernelCopy = false) (hflags : (s'.ring n).flags = (s.ring n).flags)
    (hr : ∀ m, m ≠ n → s'.ring m = s.ring m)
    (ha : s'.area = s.area) : RingQuiet s s' := by
  refine ⟨h, fun m => ?_⟩
  rcases eq_or_ne m n with rfl | hne
  · exact .of_notify (by rwa [KernelRing.kernelCopy, hflags])
  · exact .of_eq (hr m hne) ha

theorem notifyPosition_quiet (h : RingSound s) (hb : (s.ring n).state ≠ .free)
    (hk : (s.ring n).kernelCopy = false) (endpoint : KernelRingEndpoint) (position : BitVec 32) :
    RingQuiet s (notifyPosition s n endpoint position).2 := by
  have hf := h.fits n hb
  unfold notifyPosition
  cases endpoint with
  | producer =>
    dsimp only
    split_ifs with hp hc hadv
    · exact .refl h
    · exact .refl h
    · exact notifyFailed_quiet h hk
    have hadv' : position - (s.ring n).producerPosition
        ≤ (s.ring n).capacity - ringUsed (s.ring n) := by bv_omega
    have hset : (s.setRing n fun r => { r with producerPosition := position }).ring n
        = { s.ring n with producerPosition := position } := update_self ..
    rw [hset]
    unfold notifyMoved
    split_ifs with hwake
    · obtain ⟨p, woken, he, hw⟩ := ringWakeQueue_spec
        (s := s.setRing n fun r => { r with producerPosition := position }) h.healthy
        (consumerWaiters n) astraSyscallOk
      rw [he]
      exact (h.produced hb hadv' hw).notified (n := n) hk (by simp)
        (fun m hm => update_of_ne hm _ _) rfl
    · have hsum := (produced_used hf.used hadv').1
      have hsame : position = (s.ring n).producerPosition := by
        simp only [decide_eq_true_eq, not_and, not_not] at hwake
        by_contra hne
        have hz : position - (s.ring n).consumerPosition = 0 :=
          hwake fun h1 => hne (by bv_omega)
        rw [hz] at hsum
        exact hne (by bv_omega)
      have hkeep : (s.setRing n fun r => { r with producerPosition := position }) = s := by
        rw [hsame]
        exact congrArg (fun f => { s with ring := f }) (update_eq_self n s.ring)
      rw [hkeep]
      exact .refl h
  | consumer =>
    dsimp only
    split_ifs with hc hadv
    · exact .refl h
    · exact notifyFailed_quiet h hk
    have hadv' : position - (s.ring n).consumerPosition ≤ ringUsed (s.ring n) := by bv_omega
    have hset : (s.setRing n fun r => { r with consumerPosition := position }).ring n
        = { s.ring n with consumerPosition := position } := update_self ..
    rw [hset]
    unfold notifyMoved
    dsimp only
    split_ifs with hwake
    · obtain ⟨p, woken, he, hw⟩ := ringWakeQueue_spec
        (s := s.setRing n fun r => { r with consumerPosition := position }) h.healthy
        (producerWaiters n) astraSyscallOk
      rw [he]
      exact (h.consumed hb hadv' hw.healthy hw.waits fun t ht => absurd ht (hw.empty t)).notified
        (n := n) hk (by simp) (fun m hm => update_of_ne hm _ _) rfl
    · refine (h.consumed hb hadv' h.healthy (fun _ _ ht => ht) fun t ht => ?_).notified (n := n) hk
        (by simp) (fun m hm => update_of_ne hm _ _) rfl
      have hw := h.waits n (h.backed n hb).1 .producer t ht
      have hsum := consumed_used hadv'
      have hfull : ringUsed (s.ring n) = (s.ring n).capacity := hw.full
      simp only [decide_eq_true_eq, not_and, BitVec.not_lt] at hwake
      by_contra hne
      have hge := hwake (fun h1 => hne (by bv_omega)) hw.producers
      change (s.ring n).capacity ≤ (s.ring n).producerPosition - position at hge
      rw [hfull] at hsum
      exact hne (by bv_omega)

theorem kernelRingNotify_quiet (h : RingSound s) (n : ℕ) (endpoint : KernelRingEndpoint)
    (position flags : BitVec 32) : RingQuiet s (kernelRingNotify s n endpoint position flags).2 := by
  unfold kernelRingNotify
  split
  · exact .refl h
  rename_i hgate
  simp only [not_or, not_not, Bool.not_eq_true] at hgate
  split_ifs
  · exact .refl h
  · exact notifyFailed_quiet h hgate.2.1
  · exact .refl h
  · exact notifyPosition_quiet h (h.valid_iff.1 hgate.1) hgate.2.1 endpoint position

theorem kernelRingPrepareWait_spec {spec : KernelThreadWaitSpec}
    (h : RingSound s) (he : kernelRingPrepareWait s n endpoint = (.wouldBlock, spec)) :
    n < kernelRingMax ∧ spec.queue = some (waitersOfEndpoint n endpoint) ∧
      EndpointWaits (s.ring n) endpoint := by
  have hon : ∀ queue, prepareOn s queue = (.wouldBlock, spec) → spec.queue = some queue := by
    rintro queue hq
    rw [← (Prod.mk.inj hq).2]
  unfold kernelRingPrepareWait at he
  by_cases hv : ¬ validRing s n
  · simp [if_pos hv] at he
  rw [if_neg hv] at he
  rw [not_not] at hv
  have hb := h.valid_iff.1 hv
  split at he
  · unfold closingStatus at he
    split_ifs at he <;> simp at he
  rename_i hc
  have hopen : (s.ring n).state = .open := by
    rcases hs : (s.ring n).state <;> simp_all
  by_cases hu : (s.ring n).capacity < ringUsed (s.ring n)
  · simp [if_pos hu] at he
  rw [if_neg hu] at he
  cases endpoint with
  | producer =>
    dsimp only at he
    split_ifs at he with hp hc' hroom
    · simp at he
    · simp at he
    · simp at he
    · exact ⟨hv.1, hon _ he, hopen, by bv_omega, hp, hc'⟩
  | consumer =>
    dsimp only at he
    split_ifs at he with hc' hz hp
    · simp at he
    · simp at he
    · simp at he
    · exact ⟨hv.1, hon _ he, hopen, not_not.1 hz, hp, hc'⟩

theorem ringProbes_spec (h : RingSound s) {K : KernelThreadWaitSpec → Prop}
    (hk : ∀ n endpoint spec, kernelRingPrepareWait s n endpoint = (.wouldBlock, spec) → K spec) :
    ∀ (members : List RingMember) (index : ℕ) (before specs : List KernelThreadWaitSpec),
      (∀ spec, .pending spec ∈ members → K spec) → (∀ spec ∈ before, K spec) →
      ringProbes s index before members = .specs specs → ∀ spec ∈ specs, K spec
  | [], index, before, specs, _, hbefore, he => by
    obtain rfl := RingProbe.specs.inj he
    exact fun spec hspec => hbefore spec (mem_reverse.1 hspec)
  | .ring n endpoint :: members, index, before, specs, hm, hbefore, he => by
    rw [ringProbes] at he
    have hprep := hk n endpoint
    generalize kernelRingPrepareWait s n endpoint = r at he hprep
    obtain ⟨status, spec⟩ := r
    cases status
    case wouldBlock =>
      refine ringProbes_spec h hk members _ _ specs
        (fun x hx => hm x (mem_cons_of_mem _ hx)) (fun x hx => ?_) he
      rcases mem_cons.1 hx with rfl | hx
      · exact hprep x rfl
      · exact hbefore x hx
    all_goals simp at he
  | .pending spec :: members, index, before, specs, hm, hbefore, he => by
    refine ringProbes_spec h hk members _ _ specs (fun x hx => hm x (mem_cons_of_mem _ hx))
      (fun x hx => ?_) he
    rcases mem_cons.1 hx with rfl | hx
    · exact hm x mem_cons_self
    · exact hbefore x hx
  | .ready :: members, index, before, specs, hm, hbefore, he => by simp [ringProbes] at he

theorem waitRingSet_quiet (h : RingSound s) {t : Slot} {members : List RingMember}
    {multiple : Bool} {now deadline : ℕ} {rowMemory heapMemory : Bool}
    (hs : RingSane s (.waitSet t members multiple now deadline rowMemory heapMemory)) :
    RingQuiet s (waitRingSet s t members multiple now deadline rowMemory heapMemory).2.2 := by
  have hspecs := ringProbes_spec h (K := fun spec => outerQueue s.pool spec.queue ∧
      ∀ m < kernelRingMax, ∀ e, spec.queue = some (waitersOfEndpoint m e) →
        EndpointWaits (s.ring m) e) (fun n endpoint spec he => by
    obtain ⟨hn, hq, hw⟩ := kernelRingPrepareWait_spec h he
    rw [hq]
    refine ⟨by cases endpoint <;> trivial, fun m _ e hm => ?_⟩
    obtain ⟨rfl, rfl⟩ := waitersOfEndpoint_inj.1 (Option.some.inj hm)
    exact hw) members 0 []
  unfold waitRingSet
  generalize ringProbes s 0 [] members = r at hspecs
  cases r with
  | specs specs =>
    have hk := hspecs specs (fun spec hspec => ⟨(hs spec hspec).1, fun m hm e he =>
      absurd he ((hs spec hspec).2 m hm e)⟩) (by simp) rfl
    obtain ⟨hp, hw⟩ := waitBlock_waits h.healthy (t := t) (fun spec hspec => (hk spec hspec).1)
      multiple now deadline rowMemory heapMemory
    refine ⟨{ h with
      healthy := hp
      waits := fun n hn e x hx => ?_ }, fun m => .of_eq rfl rfl⟩
    rcases hw x _ hx with h1 | ⟨spec, hspec, hq⟩
    · exact h.waits n hn e x h1
    · exact (hk spec hspec).2 n hn e hq
  | answered index status =>
    dsimp only
    split_ifs
    · exact h.withPool (h.healthy.setWaitOutputs t true index 0)
        fun n _ e x hx => setWaitOutputs_waits.1 hx
    · exact .refl h

theorem processDiedRings_quiet (processId : ℕ) : ∀ (slots : List ℕ) {s : RingState}
    (closed woken : ℕ), RingSound s → RingQuiet s (processDiedRings processId s slots closed woken).2.1
  | [], s, closed, woken, h => .refl h
  | n :: slots, s, closed, woken, h => by
    unfold processDiedRings
    split_ifs with hskip
    · exact processDiedRings_quiet processId slots closed woken h
    · have hk : (s.ring n).kernelCopy = false := by
        simp only [not_or, Bool.not_eq_true] at hskip
        exact hskip.2.1
      have hq := failRing_quiet h hk astraSyscallPeerDead
      generalize failRing s n astraSyscallPeerDead = r at hq ⊢
      obtain ⟨status, s₁, ringWoken⟩ := r
      cases status
      case ok => exact hq.trans (processDiedRings_quiet processId slots _ _ hq.sound)
      all_goals exact hq

theorem kernelRingProcessDied_quiet (h : RingSound s) (processId : ℕ) :
    RingQuiet s (kernelRingProcessDied s processId).2.1 := by
  unfold kernelRingProcessDied
  split_ifs
  · exact .refl h
  · exact processDiedRings_quiet processId _ 0 0 h

end

end Astra
