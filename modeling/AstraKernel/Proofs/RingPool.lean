import AstraKernel.Ledger
import AstraKernel.Ring.Copy
import AstraKernel.Proofs.SyncUnits

/-!
# The rings between two calls

A thread waits on the consumers' queue of a ring only while it is open and empty and has a producer,
and on the producers' queue only while it is open and full and has both. A ring has its range of its
area to itself.
-/

namespace Astra

open Finset Function

/-- What the rest of the kernel keeps to: its calls of the pool are sane, and neither they nor the
other members of a wait set block a thread on a ring's queue; an area is opened where there is none,
and what is stored into an area past the kernel is not in the range of a kernel-copy ring. -/
def RingSane (s : RingState) : RingEvent → Prop
  | .thread op => Sane s.pool op ∧ ∀ n < kernelRingMax, ∀ endpoint,
    ¬ op.names (waitersOfEndpoint n endpoint)
  | .waitSet _ members _ _ _ _ _ => ∀ spec, .pending spec ∈ members →
    outerQueue s.pool spec.queue ∧ ∀ n < kernelRingMax, ∀ endpoint,
      spec.queue ≠ some (waitersOfEndpoint n endpoint)
  | .areaOpened a _ _ _ => (s.area a).live = false ∧ (s.area a).childReferences = 0
  | .areaStored a i _ => ∀ n, (s.ring n).state ≠ .free → (s.ring n).area = a →
    i < (s.ring n).offset.toNat ∨ (s.ring n).offset.toNat + (s.ring n).totalSize.toNat ≤ i
  | _ => True

structure RingFits (byteSize : BitVec 32) (r : KernelRing) : Prop where
  area : r.area ≠ 0
  shape : ringShapeValid r.kernelCopy byteSize r.offset r.elementSize r.capacity = some r.totalSize
  used : ringUsed r ≤ r.capacity
  child : r.childReleased = false
  generation : r.generation ≠ 0 ∧ r.generation ≤ ringGenerationMask
  flags : r.flags &&& ~~~astraBulkRingCreateFlagMask = 0

def Apart (r r' : KernelRing) : Prop :=
  r.area = r'.area → r.offset.toNat + r.totalSize.toNat ≤ r'.offset.toNat
    ∨ r'.offset.toNat + r'.totalSize.toNat ≤ r.offset.toNat

structure ConsumersWait (r : KernelRing) : Prop where
  opened : r.state = .open
  empty : ringUsed r = 0
  producers : r.producerReferences ≠ 0
  consumers : r.consumerReferences ≠ 0

structure ProducersWait (r : KernelRing) : Prop where
  opened : r.state = .open
  full : ringUsed r = r.capacity
  producers : r.producerReferences ≠ 0
  consumers : r.consumerReferences ≠ 0

def EndpointWaits (r : KernelRing) : KernelRingEndpoint → Prop
  | .producer => ProducersWait r
  | .consumer => ConsumersWait r

def busyRings (s : RingState) : Finset ℕ :=
  (Finset.range kernelRingMax).filter fun n => (s.ring n).state ≠ .free

def closingRings (s : RingState) : Finset ℕ :=
  (Finset.range kernelRingMax).filter fun n => (s.ring n).state = .closing

def ringsIn (s : RingState) (a : ℕ) : Finset ℕ :=
  (Finset.range kernelRingMax).filter fun n => (s.ring n).state ≠ .free ∧ (s.ring n).area = a

structure RingSound (s : RingState) : Prop where
  healthy : Healthy s.pool
  backed : ∀ n, (s.ring n).state ≠ .free →
    n < kernelRingMax ∧ s.ringDirectory (n / ringLeafEntries) = true ∧ n < s.ringBackedLimit
  leaf : ∀ n < kernelRingMax, s.ringDirectory (n / ringLeafEntries) = true → n < s.ringBackedLimit
  next : s.nextRingSlot < kernelRingMax
  fits : ∀ n, (s.ring n).state ≠ .free → RingFits (s.area (s.ring n).area).byteSize (s.ring n)
  apart : ∀ n m, (s.ring n).state ≠ .free → (s.ring m).state ≠ .free → n ≠ m →
    Apart (s.ring n) (s.ring m)
  active : s.activeRings = (busyRings s).card
  closing : s.closingRings = (closingRings s).card
  children : ∀ a, (s.area a).childReferences = (ringsIn s a).card
  waits : ∀ n < kernelRingMax, ∀ endpoint t, Waits s.pool t (waitersOfEndpoint n endpoint) →
    EndpointWaits (s.ring n) endpoint

structure RingChange (s s' : RingState) (n : ℕ) : Prop where
  healthy : Healthy s'.pool
  ring : ∀ m, m ≠ n → s'.ring m = s.ring m
  directory : s'.ringDirectory = s.ringDirectory
  limit : s'.ringBackedLimit = s.ringBackedLimit
  next : s'.nextRingSlot < kernelRingMax
  byteSize : ∀ a, (s'.area a).byteSize = (s.area a).byteSize
  backed : (s'.ring n).state ≠ .free →
    n < kernelRingMax ∧ s.ringDirectory (n / ringLeafEntries) = true
  fits : (s'.ring n).state ≠ .free → RingFits (s.area (s'.ring n).area).byteSize (s'.ring n)
  apart : (s'.ring n).state ≠ .free → ∀ m, (s.ring m).state ≠ .free → m ≠ n →
    Apart (s'.ring n) (s.ring m)
  active : s'.activeRings + (if (s.ring n).state ≠ .free then 1 else 0)
    = s.activeRings + if (s'.ring n).state ≠ .free then 1 else 0
  closing : s'.closingRings + (if (s.ring n).state = .closing then 1 else 0)
    = s.closingRings + if (s'.ring n).state = .closing then 1 else 0
  children : ∀ a, (s'.area a).childReferences
      + (if (s.ring n).state ≠ .free ∧ (s.ring n).area = a then 1 else 0)
    = (s.area a).childReferences
      + if (s'.ring n).state ≠ .free ∧ (s'.ring n).area = a then 1 else 0
  waits : ∀ m < kernelRingMax, m ≠ n → ∀ endpoint t,
    Waits s'.pool t (waitersOfEndpoint m endpoint) → Waits s.pool t (waitersOfEndpoint m endpoint)
  own : ∀ endpoint t, Waits s'.pool t (waitersOfEndpoint n endpoint) →
    EndpointWaits (s'.ring n) endpoint

structure SamePlace (r r' : KernelRing) : Prop where
  area : r'.area = r.area
  generation : r'.generation = r.generation
  offset : r'.offset = r.offset
  totalSize : r'.totalSize = r.totalSize
  elementSize : r'.elementSize = r.elementSize
  capacity : r'.capacity = r.capacity
  flags : r'.flags = r.flags

/-- The byte of a ring's buffer at an index. -/
def ringByte (s : RingState) (n i : ℕ) : BitVec 8 :=
  (s.area (s.ring n).area).bytes ((s.ring n).offset.toNat + kernelRingHeaderSize.toNat + i)

structure SameStream (s s' : RingState) (n : ℕ) : Prop where
  busy : (s.ring n).state ≠ .free
  state : (s'.ring n).state = (s.ring n).state
  place : SamePlace (s.ring n) (s'.ring n)
  producer : (s'.ring n).producerPosition = (s.ring n).producerPosition
  consumer : (s'.ring n).consumerPosition = (s.ring n).consumerPosition
  bytes : ∀ i < (s.ring n).capacity.toNat, ringByte s' n i = ringByte s n i

def Unmoved (s s' : RingState) (n : ℕ) : Prop :=
  (s'.ring n).state ≠ .free → (s'.ring n).kernelCopy = true → SameStream s s' n

structure RingQuiet (s s' : RingState) : Prop where
  sound : RingSound s'
  unmoved : ∀ n, Unmoved s s' n

section

variable {s s' s₁ : RingState} {n m : ℕ} {p : Pool} {r o : KernelRing}

theorem SamePlace.refl (r : KernelRing) : SamePlace r r :=
  ⟨rfl, rfl, rfl, rfl, rfl, rfl, rfl⟩

theorem SamePlace.trans {r r₁ r' : KernelRing} (h : SamePlace r r₁) (h' : SamePlace r₁ r') :
    SamePlace r r' :=
  ⟨h'.area.trans h.area, h'.generation.trans h.generation, h'.offset.trans h.offset,
    h'.totalSize.trans h.totalSize, h'.elementSize.trans h.elementSize,
    h'.capacity.trans h.capacity, h'.flags.trans h.flags⟩

theorem SamePlace.kernelCopy {r r' : KernelRing} (h : SamePlace r r') :
    r'.kernelCopy = r.kernelCopy := by
  rw [KernelRing.kernelCopy, KernelRing.kernelCopy, h.flags]

theorem Unmoved.refl (s : RingState) (n : ℕ) : Unmoved s s n :=
  fun h1 _ => ⟨h1, rfl, .refl _, rfl, rfl, fun _ _ => rfl⟩

theorem Unmoved.trans (h : Unmoved s s₁ n) (h' : Unmoved s₁ s' n) : Unmoved s s' n := by
  intro h1 h2
  have h3 := h' h1 h2
  have h4 := h h3.busy (h3.place.kernelCopy.symm.trans h2)
  refine ⟨h4.busy, h3.state.trans h4.state, h4.place.trans h3.place, h3.producer.trans h4.producer,
    h3.consumer.trans h4.consumer, fun i hi => ?_⟩
  exact (h3.bytes i (by rwa [h4.place.capacity])).trans (h4.bytes i hi)

theorem Unmoved.of_free (h : (s'.ring n).state = .free) : Unmoved s s' n :=
  fun h1 _ => absurd h h1

theorem Unmoved.of_notify (h : (s'.ring n).kernelCopy = false) : Unmoved s s' n :=
  fun _ h2 => by simp [h] at h2

theorem Unmoved.of_eq (hr : s'.ring n = s.ring n) (ha : s'.area = s.area) : Unmoved s s' n :=
  fun h1 _ => ⟨hr ▸ h1, by rw [hr], hr ▸ .refl _, by rw [hr], by rw [hr], fun i _ => by
    rw [ringByte, ringByte, hr, ha]⟩

theorem RingQuiet.refl (h : RingSound s) : RingQuiet s s :=
  ⟨h, .refl s⟩

theorem RingQuiet.trans (h : RingQuiet s s₁) (h' : RingQuiet s₁ s') : RingQuiet s s' :=
  ⟨h'.sound, fun n => (h.unmoved n).trans (h'.unmoved n)⟩

variable {endpoint endpoint' : KernelRingEndpoint} {closing : ℕ}

@[simp] theorem waitersOfEndpoint_inj :
    waitersOfEndpoint n endpoint = waitersOfEndpoint m endpoint' ↔ n = m ∧ endpoint = endpoint' := by
  cases endpoint <;> cases endpoint' <;>
    simp only [waitersOfEndpoint, producerWaiters, consumerWaiters, QueueRef.object.injEq] <;>
    simp <;> omega

theorem Apart.symm {r r' : KernelRing} (h : Apart r r') : Apart r' r :=
  fun he => (h he.symm).symm

theorem RingSound.change (h : RingSound s) (hn : n < kernelRingMax) (hc : RingChange s s' n) :
    RingSound s' := by
  have hmem : n ∈ Finset.range kernelRingMax := mem_range.2 hn
  refine ⟨hc.healthy, fun m hm => ?_, ?_, hc.next, fun m hm => ?_, fun m k hm hk hne => ?_, ?_, ?_,
    fun a => ?_, fun m hlt endpoint t ht => ?_⟩
  · rw [hc.directory, hc.limit]
    rcases eq_or_ne m n with rfl | hne
    · obtain ⟨h1, h2⟩ := hc.backed hm
      exact ⟨h1, h2, h.leaf m h1 h2⟩
    · rw [hc.ring m hne] at hm
      exact h.backed m hm
  · rw [hc.directory, hc.limit]
    exact h.leaf
  · rw [hc.byteSize]
    rcases eq_or_ne m n with rfl | hne
    · exact hc.fits hm
    · rw [hc.ring m hne] at hm ⊢
      exact h.fits m hm
  · rcases eq_or_ne m n with rfl | hmn
    · rw [hc.ring k hne.symm] at hk ⊢
      exact hc.apart hm k hk hne.symm
    · rw [hc.ring m hmn] at hm ⊢
      rcases eq_or_ne k n with rfl | hkn
      · exact (hc.apart hk m hm hmn).symm
      · rw [hc.ring k hkn] at hk ⊢
        exact h.apart m k hm hk hne
  · have h1 : (busyRings s').card + _ = (busyRings s).card + _ :=
      card_filter_change hmem fun m _ hm => by rw [hc.ring m hm]
    have h2 := hc.active
    have h3 := h.active
    omega
  · have h1 : (closingRings s').card + _ = (closingRings s).card + _ :=
      card_filter_change hmem fun m _ hm => by rw [hc.ring m hm]
    have h2 := hc.closing
    have h3 := h.closing
    omega
  · have h1 : (ringsIn s' a).card + _ = (ringsIn s a).card + _ :=
      card_filter_change hmem fun m _ hm => by rw [hc.ring m hm]
    have h2 := hc.children a
    have h3 := h.children a
    omega
  · rcases eq_or_ne m n with rfl | hne
    · exact hc.own endpoint t ht
    · rw [hc.ring m hne]
      exact h.waits m hlt endpoint t (hc.waits m hlt hne endpoint t ht)

theorem RingFits.congr {size : BitVec 32} (h : RingFits size r) (hp : SamePlace r o)
    (hu : ringUsed o ≤ o.capacity) (hc : o.childReleased = false) : RingFits size o := by
  refine ⟨hp.area ▸ h.area, ?_, hu, hc, hp.generation ▸ h.generation, hp.flags ▸ h.flags⟩
  rw [hp.kernelCopy, hp.offset, hp.elementSize, hp.capacity, hp.totalSize]
  exact h.shape

theorem Apart.congr {r r' : KernelRing} (h : Apart r r') (hp : SamePlace r o) : Apart o r' := by
  unfold Apart
  rw [hp.area, hp.offset, hp.totalSize]
  exact h

theorem RingSound.record (h : RingSound s) (hp : Healthy p) (hb : (s.ring n).state ≠ .free)
    (ho : o.state ≠ .free) (hplace : SamePlace (s.ring n) o) (hu : ringUsed o ≤ o.capacity)
    (hc : o.childReleased = false)
    (hclosing : closing + (if (s.ring n).state = .closing then 1 else 0)
      = s.closingRings + if o.state = .closing then 1 else 0)
    (hw : ∀ m < kernelRingMax, m ≠ n → ∀ endpoint t,
      Waits p t (waitersOfEndpoint m endpoint) → Waits s.pool t (waitersOfEndpoint m endpoint))
    (hown : ∀ endpoint t, Waits p t (waitersOfEndpoint n endpoint) → EndpointWaits o endpoint) :
    RingSound { s with pool := p, ring := update s.ring n o, closingRings := closing } := by
  obtain ⟨hlt, hd, -⟩ := h.backed n hb
  refine h.change hlt ⟨hp, fun m hm => update_of_ne hm _ _, rfl, rfl, h.next, fun _ => rfl,
    fun _ => ⟨hlt, hd⟩, fun _ => ?_, fun _ m hm hne => ?_, ?_, ?_, fun a => ?_, hw, ?_⟩
  · dsimp only
    rw [update_self, hplace.area]
    exact (h.fits n hb).congr hplace hu hc
  · dsimp only
    rw [update_self]
    exact (h.apart n m hb hm hne.symm).congr hplace
  · simp [hb, ho]
  · simpa using hclosing
  · simp [hb, ho, hplace.area]
  · simpa using hown

theorem Unmoved.record (hplace : SamePlace (s.ring n) o) (hb : (s.ring n).state ≠ .free)
    (hpos : (s.ring n).kernelCopy = true → o.state = (s.ring n).state
      ∧ o.producerPosition = (s.ring n).producerPosition
      ∧ o.consumerPosition = (s.ring n).consumerPosition) :
    Unmoved s { s with pool := p, ring := update s.ring n o, closingRings := closing } m := by
  rcases eq_or_ne m n with rfl | hne
  · intro _ h2
    dsimp only at h2
    rw [update_self, hplace.kernelCopy] at h2
    refine ⟨hb, ?_, ?_, ?_, ?_, fun i _ => ?_⟩
    · dsimp only
      rw [update_self]
      exact (hpos h2).1
    · dsimp only
      rw [update_self]
      exact hplace
    · dsimp only
      rw [update_self]
      exact (hpos h2).2.1
    · dsimp only
      rw [update_self]
      exact (hpos h2).2.2
    · unfold ringByte
      dsimp only
      rw [update_self, hplace.area, hplace.offset]
  · exact .of_eq (update_of_ne hne _ _) rfl

theorem RingSound.withPool (h : RingSound s) (hp : Healthy p)
    (hw : ∀ n < kernelRingMax, ∀ endpoint t, Waits p t (waitersOfEndpoint n endpoint) →
      Waits s.pool t (waitersOfEndpoint n endpoint)) : RingQuiet s (s.withPool p) :=
  ⟨{ h with
      healthy := hp
      waits := fun n hn endpoint t ht => h.waits n hn endpoint t (hw n hn endpoint t ht) },
    fun _ => .of_eq rfl rfl⟩

theorem RingQuiet.corrupted (h : RingSound s) : RingQuiet s s.corrupted :=
  ⟨{ h with }, fun _ => .of_eq rfl rfl⟩

theorem RingSound.valid_iff (h : RingSound s) : validRing s n ↔ (s.ring n).state ≠ .free := by
  constructor
  · exact fun hv => hv.2.2.2.2.2
  · intro hb
    obtain ⟨h1, h2, -⟩ := h.backed n hb
    have hf := h.fits n hb
    exact ⟨h1, h2, hf.generation.1, hf.generation.2, hf.flags, hb⟩

theorem ringWakeQueue_spec (h : Healthy s.pool) (queue : QueueRef) (result : ℕ) :
    ∃ p woken, s.wakeQueue queue result = (true, s.withPool p, woken) ∧
      WokeAll s.pool p queue result := by
  obtain ⟨p, n, he, hw⟩ := wakeAll_woke h queue result
  refine ⟨p, n, ?_, hw⟩
  unfold RingState.wakeQueue
  rw [he]

theorem ringWakeQueues_spec (h : Healthy s.pool) (queue queue' : QueueRef) (result result' : ℕ) :
    ∃ p₁ p woken, s.wakeQueues queue queue' result result' = (true, s.withPool p, woken) ∧
      WokeAll s.pool p₁ queue result ∧ WokeAll p₁ p queue' result' := by
  obtain ⟨p₁, n₁, he₁, hw₁⟩ := ringWakeQueue_spec h queue result
  obtain ⟨p, n, he, hw⟩ := ringWakeQueue_spec (s := s.withPool p₁) hw₁.healthy queue' result'
  refine ⟨p₁, p, n₁ + n, ?_, hw₁, hw⟩
  unfold RingState.wakeQueues
  rw [he₁]
  dsimp only
  rw [he]
  rfl

theorem WokeAll.endpoints {p₁ p' : Pool}
    {result result' : ℕ} (h : WokeAll p p₁ (waitersOfEndpoint n endpoint) result)
    (h' : WokeAll p₁ p' (waitersOfEndpoint n endpoint') result') (hne : endpoint ≠ endpoint')
    (e : KernelRingEndpoint) (t : Slot) : ¬ Waits p' t (waitersOfEndpoint n e) := by
  intro ht
  rcases eq_or_ne e endpoint' with rfl | he
  · exact h'.empty t ht
  · obtain rfl : e = endpoint := by cases e <;> cases endpoint <;> cases endpoint' <;> simp_all
    exact h.empty t (h'.waits t _ ht)

theorem initQueues_healthy (h : Healthy s.pool)
    (hw : ∀ endpoint t, ¬ Waits s.pool t (waitersOfEndpoint n endpoint)) :
    Healthy (s.initQueues n).pool := by
  refine h.initQueues fun q => ?_
  by_cases hc : q = consumerWaiters n
  · subst hc
    exact .inr ⟨update_self .., hw .consumer⟩
  by_cases hp : q = producerWaiters n
  · subst hp
    exact .inr ⟨(update_of_ne hc _ _).trans (update_self ..), hw .producer⟩
  · exact .inl ((update_of_ne hc _ _).trans (update_of_ne hp _ _))

theorem mem_ringsIn : n ∈ ringsIn s m ↔ n < kernelRingMax ∧ (s.ring n).state ≠ .free
    ∧ (s.ring n).area = m := by
  simp [ringsIn]

section

variable (h : RingSound s)
include h

theorem RingSound.children_ne (hb : (s.ring n).state ≠ .free) :
    (s.area (s.ring n).area).childReferences ≠ 0 := by
  rw [h.children]
  exact (card_pos.2 ⟨n, mem_ringsIn.2 ⟨(h.backed n hb).1, hb, rfl⟩⟩).ne'

theorem RingSound.active_ne (hb : (s.ring n).state ≠ .free) : s.activeRings ≠ 0 := by
  rw [h.active]
  have hlt := (h.backed n hb).1
  exact (card_pos.2 ⟨n, by simp [busyRings, hlt, hb]⟩).ne'

theorem RingSound.closing_ne (hc : (s.ring n).state = .closing) : s.closingRings ≠ 0 := by
  rw [h.closing]
  have hlt := (h.backed n (by simp [hc])).1
  exact (card_pos.2 ⟨n, by simp [Astra.closingRings, hlt, hc]⟩).ne'

theorem RingSound.freed (hb : (s.ring n).state ≠ .free)
    (hw : ∀ endpoint t, ¬ Waits s.pool t (waitersOfEndpoint n endpoint)) {g : ℕ}
    (hring : s₁.ring = update s.ring n (freeRingRecord g))
    (hpool : s₁.pool = (s.initQueues n).pool)
    (harea : s₁.area = update s.area (s.ring n).area { s.area (s.ring n).area with
      childReferences := (s.area (s.ring n).area).childReferences - 1 })
    (hd : s₁.ringDirectory = s.ringDirectory) (hl : s₁.ringBackedLimit = s.ringBackedLimit)
    (hx : s₁.nextRingSlot < kernelRingMax) (ha : s₁.activeRings = s.activeRings - 1)
    (hc : s₁.closingRings + (if (s.ring n).state = .closing then 1 else 0) = s.closingRings) :
    RingQuiet s s₁ := by
  have hn : s₁.ring n = freeRingRecord g := by rw [hring, update_self]
  have hf : (s₁.ring n).state = .free := by rw [hn]; rfl
  have hother : ∀ m, m ≠ n → s₁.ring m = s.ring m := fun m hm => by rw [hring, update_of_ne hm]
  have hsize : ∀ a, (s₁.area a).byteSize = (s.area a).byteSize := by
    intro a
    rw [harea]
    rcases eq_or_ne a (s.ring n).area with rfl | hne
    · rw [update_self]
    · rw [update_of_ne hne]
  have hbytes : ∀ a, (s₁.area a).bytes = (s.area a).bytes := by
    intro a
    rw [harea]
    rcases eq_or_ne a (s.ring n).area with rfl | hne
    · rw [update_self]
    · rw [update_of_ne hne]
  constructor
  · refine h.change (h.backed n hb).1 ⟨hpool ▸ initQueues_healthy h.healthy hw, hother, hd, hl, hx,
      hsize, fun h1 => absurd hf h1, fun h1 => absurd hf h1, fun h1 => absurd hf h1, ?_, ?_,
      fun a => ?_, fun m _ _ endpoint t ht => ?_, fun endpoint t ht => ?_⟩
    · have := h.active_ne hb
      simp only [hf, hb, ne_eq, not_true, not_false_eq_true, if_true, if_false]
      omega
    · simpa [hf] using hc
    · have := h.children_ne hb
      rw [harea]
      rcases eq_or_ne a (s.ring n).area with rfl | hne
      · simp only [update_self, hf, hb, ne_eq, not_true, not_false_eq_true, and_true, if_true,
          false_and, if_false]
        omega
      · simp [update_of_ne hne, hf, hne.symm]
    · rw [hpool] at ht
      exact ht
    · rw [hpool] at ht
      exact absurd ht (hw endpoint t)
  · intro m
    rcases eq_or_ne m n with rfl | hne
    · exact .of_free hf
    · intro h1 _
      rw [hother m hne] at h1
      refine ⟨h1, ?_, ?_, ?_, ?_, fun i _ => ?_⟩
      · rw [hother m hne]
      · rw [hother m hne]
        exact .refl _
      · rw [hother m hne]
      · rw [hother m hne]
      · rw [ringByte, ringByte, hother m hne, hbytes]

end

theorem freeRing_eq (s : RingState) (n : ℕ) : freeRing s n = { s with
    pool := (s.initQueues n).pool
    ring := update s.ring n (freeRingRecord (s.ring n).generation)
    nextRingSlot := min n s.nextRingSlot } := by
  unfold freeRing
  dsimp only
  split_ifs with hlt
  · have hmin : min n s.nextRingSlot = n := Nat.min_eq_left (Nat.le_of_lt hlt)
    rw [hmin]
    rfl
  · have hmin : min n s.nextRingSlot = s.nextRingSlot := Nat.min_eq_right (Nat.not_lt.1 hlt)
    rw [hmin]
    rfl

theorem maybeFree_quiet (h : RingSound s) (n : ℕ) : RingQuiet s (maybeFree s n) := by
  unfold maybeFree
  split
  · exact .refl h
  rename_i hgate
  push Not at hgate
  have hb := h.valid_iff.1 hgate.1
  split
  · exact .corrupted h
  rename_i hcount
  push Not at hcount
  have hw : ∀ endpoint t, ¬ Waits s.pool t (waitersOfEndpoint n endpoint) := by
    intro endpoint t ht
    cases endpoint
    · exact h.healthy.waitQueueCount_ne ht hcount.1
    · exact h.healthy.waitQueueCount_ne ht hcount.2
  have hf := h.fits n hb
  have hchild : releaseChild s n = (.ok, (s.setArea (s.ring n).area fun area => { area with
      childReferences := area.childReferences - 1 }).setRing n fun r => { r with
        childReleased := true }) := by
    unfold releaseChild kernelAreaChildRelease
    rw [if_neg (by simp [hf.child]), if_neg hf.area, if_neg (h.children_ne hb)]
  rw [hchild]
  dsimp only
  have hstate : ((s.setArea (s.ring n).area fun area => { area with
      childReferences := area.childReferences - 1 }).setRing n fun r => { r with
        childReleased := true }).ring n = { s.ring n with childReleased := true } := by
    simp [RingState.setRing, RingState.setArea]
  rw [hstate, if_neg (by simpa [RingState.setRing, RingState.setArea] using h.active_ne hb),
    if_neg (by
      rintro ⟨h1, h2⟩
      exact h.closing_ne h1 h2)]
  rw [freeRing_eq]
  refine h.freed hb hw (g := (s.ring n).generation) ?_ rfl rfl rfl rfl ?_ rfl ?_
  · simp [RingState.setRing, RingState.setArea]
  · exact lt_of_le_of_lt (Nat.min_le_right _ _) h.next
  · dsimp only
    split_ifs with hc
    · have := h.closing_ne hc
      simp only [RingState.setRing, RingState.setArea]
      omega
    · rfl

end

end Astra
