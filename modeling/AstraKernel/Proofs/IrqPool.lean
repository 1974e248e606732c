import AstraKernel.Ledger
import AstraKernel.Irq.Step
import AstraKernel.Proofs.SyncUnits

/-!
# The interrupt endpoints between two calls

A source is routed to an endpoint exactly while the endpoint is bound to it and its device has not
been quiesced, and threads wait only on active endpoints. Most calls of an active endpoint keep its
binding, and change its flags, its records and the mask of its own source.
-/

namespace Astra

open Function

/-- What the rest of the kernel keeps to: its calls of the pool are sane, and neither they nor the
other members of a wait set block a thread on an endpoint. -/
def IrqSane (s : IrqState) : IrqEvent → Prop
  | .thread op => Sane s.pool op ∧ ∀ n < kernelIrqEndpointMax, ¬ op.names (irqWaiters n)
  | .waitSet _ members _ _ _ _ _ => ∀ spec, .pending spec ∈ members →
    outerQueue s.pool spec.queue ∧ ∀ n < kernelIrqEndpointMax, spec.queue ≠ some (irqWaiters n)
  | _ => True

structure EndpointFits (e : KernelIrqEndpoint) : Prop where
  owner : e.owner ≠ 0
  generation : e.generation ≠ 0
  references : e.references ≠ 0
  ipl : e.ipl ≠ 0 ∧ e.ipl ≤ 7
  vector : e.vector = kernelIrqCommonVector
  head : e.head < kernelIrqRecordDepth
  tail : e.tail < kernelIrqRecordDepth
  recordCount : e.recordCount ≤ kernelIrqRecordDepth
  nextSequence : e.nextSequence ≠ 0
  quiesced : e.flags.quiesced = false

def RoutedFrom (e : KernelIrqEndpoint) (source : ℕ) : Prop :=
  e.state ≠ .free ∧ e.flags.quiesced = false ∧ e.source = source

instance (e : KernelIrqEndpoint) (source : ℕ) : Decidable (RoutedFrom e source) :=
  inferInstanceAs (Decidable (_ ∧ _))

def liveIrqs (s : IrqState) : Finset ℕ :=
  (Finset.range kernelIrqEndpointMax).filter fun n => (s.endpoint n).state ≠ .free

def revokingIrqs (s : IrqState) : Finset ℕ :=
  (Finset.range kernelIrqEndpointMax).filter fun n => (s.endpoint n).state = .revoking

structure IrqSound (s : IrqState) : Prop where
  healthy : Healthy s.pool
  waits : ∀ n < kernelIrqEndpointMax, ∀ t, Waits s.pool t (irqWaiters n) →
    irqActiveState (s.endpoint n).state
  slot : ∀ n, (s.endpoint n).state ≠ .free →
    n < kernelIrqEndpointMax ∧ (s.endpoint n).source < kernelIrqSourceCount
  fits : ∀ n, irqActiveState (s.endpoint n).state → EndpointFits (s.endpoint n)
  routed : ∀ source n, (s.route source).endpoint = some n ↔ RoutedFrom (s.endpoint n) source
  claimed : ∀ n < kernelIrqEndpointMax, s.cache.claimed n = true ↔ (s.endpoint n).state ≠ .free
  cacheSane : s.cache.corrupt = false
  hint : s.cache.nextHint < kernelIrqEndpointMax
  cacheLive : s.cache.live = (liveIrqs s).card
  units : s.cache.units = (liveIrqs s).card
  live : s.liveEndpoints = (liveIrqs s).card
  revoking : s.revokingEndpoints = (revokingIrqs s).card

structure IrqChange (s s' : IrqState) (n : ℕ) : Prop where
  slot : n < kernelIrqEndpointMax
  healthy : Healthy s'.pool
  endpoint : ∀ m, m ≠ n → s'.endpoint m = s.endpoint m
  waits : ∀ m < kernelIrqEndpointMax, m ≠ n → ∀ t,
    Waits s'.pool t (irqWaiters m) → Waits s.pool t (irqWaiters m)
  own : ∀ t, Waits s'.pool t (irqWaiters n) → irqActiveState (s'.endpoint n).state
  source : (s'.endpoint n).state ≠ .free → (s'.endpoint n).source < kernelIrqSourceCount
  fits : irqActiveState (s'.endpoint n).state → EndpointFits (s'.endpoint n)
  route : ∀ source, (s'.route source).endpoint
    = if RoutedFrom (s'.endpoint n) source then some n
      else if (s.route source).endpoint = some n then none else (s.route source).endpoint
  vacant : ∀ source m, RoutedFrom (s'.endpoint n) source → (s.route source).endpoint = some m → m = n
  claimed : ∀ m < kernelIrqEndpointMax, s'.cache.claimed m
    = if m = n then decide ((s'.endpoint n).state ≠ .free) else s.cache.claimed m
  cacheSane : s'.cache.corrupt = false
  hint : s'.cache.nextHint < kernelIrqEndpointMax
  cacheLive : s'.cache.live + (if (s.endpoint n).state ≠ .free then 1 else 0)
    = s.cache.live + if (s'.endpoint n).state ≠ .free then 1 else 0
  units : s'.cache.units + (if (s.endpoint n).state ≠ .free then 1 else 0)
    = s.cache.units + if (s'.endpoint n).state ≠ .free then 1 else 0
  live : s'.liveEndpoints + (if (s.endpoint n).state ≠ .free then 1 else 0)
    = s.liveEndpoints + if (s'.endpoint n).state ≠ .free then 1 else 0
  revoking : s'.revokingEndpoints + (if (s.endpoint n).state = .revoking then 1 else 0)
    = s.revokingEndpoints + if (s'.endpoint n).state = .revoking then 1 else 0

structure SameBinding (e e' : KernelIrqEndpoint) : Prop where
  active : irqActiveState e.state → irqActiveState e'.state
  fits : irqActiveState e.state → EndpointFits e → EndpointFits e'
  source : e'.source = e.source
  trigger : e'.trigger = e.trigger

structure IrqSoft (s s' : IrqState) (n : ℕ) : Prop where
  endpoint : ∀ m, m ≠ n → s'.endpoint m = s.endpoint m
  binding : SameBinding (s.endpoint n) (s'.endpoint n)
  route : s'.route = s.route
  cache : s'.cache = s.cache
  live : s'.liveEndpoints = s.liveEndpoints
  revoking : s'.revokingEndpoints = s.revokingEndpoints
  corrupt : s'.poolCorrupt = s.poolCorrupt
  enabled : ∀ source, source ≠ (s.endpoint n).source → s'.enabled source = s.enabled source
  healthy : Healthy s.pool → Healthy s'.pool
  waits : ∀ t q, Waits s'.pool t q → Waits s.pool t q

section

variable {s s' s₁ : IrqState} {n m : ℕ} {p : Pool}

theorem irqActiveState_ne_free {state : KernelIrqState} (h : irqActiveState state) :
    state ≠ .free := by
  rintro rfl
  exact h

theorem irqActiveState_iff {state : KernelIrqState} :
    irqActiveState state ↔ state ≠ .free ∧ state ≠ .revoking := by
  cases state <;> simp [irqActiveState]

section

variable (h : IrqSound s)
include h

theorem IrqSound.change (hc : IrqChange s s' n) : IrqSound s' := by
  have hmem : n ∈ Finset.range kernelIrqEndpointMax := Finset.mem_range.2 hc.slot
  have hlive : (liveIrqs s').card + _ = (liveIrqs s).card + _ :=
    card_filter_change hmem fun m _ hm => by rw [hc.endpoint m hm]
  have hrevoking : (revokingIrqs s').card + _ = (revokingIrqs s).card + _ :=
    card_filter_change hmem fun m _ hm => by rw [hc.endpoint m hm]
  refine ⟨hc.healthy, fun m hm t ht => ?_, fun m hm => ?_, fun m hm => ?_, fun source m => ?_,
    fun m hm => ?_, hc.cacheSane, hc.hint, ?_, ?_, ?_, ?_⟩
  · rcases eq_or_ne m n with rfl | hne
    · exact hc.own t ht
    · rw [hc.endpoint m hne]
      exact h.waits m hm t (hc.waits m hm hne t ht)
  · rcases eq_or_ne m n with rfl | hne
    · exact ⟨hc.slot, hc.source hm⟩
    · rw [hc.endpoint m hne] at hm ⊢
      exact h.slot m hm
  · rcases eq_or_ne m n with rfl | hne
    · exact hc.fits hm
    · rw [hc.endpoint m hne] at hm ⊢
      exact h.fits m hm
  · rw [hc.route source]
    rcases eq_or_ne m n with rfl | hne
    · by_cases hr : RoutedFrom (s'.endpoint m) source
      · rw [if_pos hr]
        exact iff_of_true rfl hr
      · rw [if_neg hr]
        refine iff_of_false ?_ hr
        split_ifs with hold <;> simp [hold]
    · rw [hc.endpoint m hne, ← h.routed source m]
      split
      · rename_i hr
        exact iff_of_false (fun he => hne (Option.some.inj he).symm)
          fun he => hne (hc.vacant source m hr he)
      · split_ifs with hold
        · rw [hold]
          simp [hne.symm]
        · rfl
  · rw [hc.claimed m hm]
    rcases eq_or_ne m n with rfl | hne
    · simp
    · rw [if_neg hne, hc.endpoint m hne]
      exact h.claimed m hm
  · have h1 := hc.cacheLive
    have h2 := h.cacheLive
    omega
  · have h1 := hc.units
    have h2 := h.units
    omega
  · have h1 := hc.live
    have h2 := h.live
    omega
  · have h1 := hc.revoking
    have h2 := h.revoking
    omega

theorem IrqSound.valid_iff : validActiveEndpoint s n ↔ irqActiveState (s.endpoint n).state := by
  constructor
  · exact fun hv => hv.1.2.1
  · intro ha
    have hf := h.fits n ha
    obtain ⟨h1, h2⟩ := h.slot n (irqActiveState_ne_free ha)
    exact ⟨⟨h1, ha, hf.owner, hf.generation, hf.references, hf.ipl.1, hf.ipl.2, hf.vector, hf.head,
      hf.tail, hf.recordCount, hf.nextSequence, h2,
      (h.routed _ n).2 ⟨irqActiveState_ne_free ha, hf.quiesced, rfl⟩⟩,
      h.healthy.waitQueueCount_ne_max _⟩

theorem IrqSound.withPool (hp : Healthy p)
    (hw : ∀ n < kernelIrqEndpointMax, ∀ t, Waits p t (irqWaiters n) →
      irqActiveState (s.endpoint n).state) : IrqSound (s.withPool p) :=
  { h with
    healthy := hp
    waits := hw }

theorem IrqSound.corrupted : IrqSound s.corrupted :=
  { h with }

end

theorem SameBinding.refl (e : KernelIrqEndpoint) : SameBinding e e :=
  ⟨id, fun _ hf => hf, rfl, rfl⟩

theorem IrqSoft.refl (s : IrqState) (n : ℕ) : IrqSoft s s n :=
  ⟨fun _ _ => rfl, .refl _, rfl, rfl, rfl, rfl, rfl, fun _ _ => rfl, id, fun _ _ ht => ht⟩

theorem IrqSoft.trans (h : IrqSoft s s₁ n) (h' : IrqSoft s₁ s' n) : IrqSoft s s' n where
  endpoint m hm := (h'.endpoint m hm).trans (h.endpoint m hm)
  binding := ⟨fun ha => h'.binding.active (h.binding.active ha),
    fun ha hf => h'.binding.fits (h.binding.active ha) (h.binding.fits ha hf),
    h'.binding.source.trans h.binding.source, h'.binding.trigger.trans h.binding.trigger⟩
  route := h'.route.trans h.route
  cache := h'.cache.trans h.cache
  live := h'.live.trans h.live
  revoking := h'.revoking.trans h.revoking
  corrupt := h'.corrupt.trans h.corrupt
  enabled source hs :=
    (h'.enabled source (by rwa [h.binding.source])).trans (h.enabled source hs)
  healthy hp := h'.healthy (h.healthy hp)
  waits t q ht := h.waits t q (h'.waits t q ht)

theorem IrqSound.soft (h : IrqSound s) (ha : irqActiveState (s.endpoint n).state)
    (hs : IrqSoft s s' n) : IrqSound s' := by
  have ha' := hs.binding.active ha
  have hfits := hs.binding.fits ha (h.fits n ha)
  have hfree := irqActiveState_ne_free ha
  have hfree' := irqActiveState_ne_free ha'
  have hrouted : ∀ source, RoutedFrom (s'.endpoint n) source ↔ (s.route source).endpoint = some n :=
    fun source => by
      rw [h.routed source n, RoutedFrom, RoutedFrom, hs.binding.source, hfits.quiesced,
        (h.fits n ha).quiesced]
      exact and_congr_left fun _ => iff_of_true hfree' hfree
  have hrevoking : (s.endpoint n).state ≠ .revoking ∧ (s'.endpoint n).state ≠ .revoking :=
    ⟨(irqActiveState_iff.1 ha).2, (irqActiveState_iff.1 ha').2⟩
  refine h.change ⟨(h.slot n hfree).1, hs.healthy h.healthy, hs.endpoint,
    fun m _ _ t ht => hs.waits t _ ht, fun _ _ => ha', fun _ => ?_, fun _ => hfits,
    fun source => ?_, fun source m hr he => ?_, fun m hm => ?_, ?_, ?_, ?_, ?_, ?_, ?_⟩
  · rw [hs.binding.source]
    exact (h.slot n hfree).2
  · rw [hs.route]
    by_cases hr : (s.route source).endpoint = some n
    · rw [if_pos ((hrouted source).2 hr), hr]
    · rw [if_neg (mt (hrouted source).1 hr), if_neg hr]
  · exact Option.some.inj (he.symm.trans ((hrouted source).1 hr))
  · rw [hs.cache]
    rcases eq_or_ne m n with rfl | hne
    · simpa [hfree'] using (h.claimed m hm).2 hfree
    · simp [hne]
  · rw [hs.cache]
    exact h.cacheSane
  · rw [hs.cache]
    exact h.hint
  · simp [hs.cache, hfree, hfree']
  · simp [hs.cache, hfree, hfree']
  · simp [hs.live, hfree, hfree']
  · simp [hs.revoking, hrevoking]

variable (b : Bool) (source : ℕ) (f : KernelIrqEndpoint → KernelIrqEndpoint)

@[simp] theorem setEndpoint_endpoint : (s.setEndpoint n f).endpoint n = f (s.endpoint n) :=
  update_self ..

theorem setEndpoint_other (hm : m ≠ n) : (s.setEndpoint n f).endpoint m = s.endpoint m :=
  update_of_ne hm _ _

@[simp] theorem setEndpoint_cache : (s.setEndpoint n f).cache = s.cache :=
  rfl

@[simp] theorem setFlags_endpoint (f : KernelIrqFlags → KernelIrqFlags) :
    (s.setFlags n f).endpoint n = { s.endpoint n with flags := f (s.endpoint n).flags } :=
  update_self ..

@[simp] theorem setEndpoint_route : (s.setEndpoint n f).route = s.route :=
  rfl

@[simp] theorem setFlags_route (f : KernelIrqFlags → KernelIrqFlags) :
    (s.setFlags n f).route = s.route :=
  rfl

@[simp] theorem setEndpoint_enabled : (s.setEndpoint n f).enabled = s.enabled :=
  rfl

@[simp] theorem setFlags_enabled (f : KernelIrqFlags → KernelIrqFlags) :
    (s.setFlags n f).enabled = s.enabled :=
  rfl

@[simp] theorem setEndpoint_pool : (s.setEndpoint n f).pool = s.pool :=
  rfl

@[simp] theorem setFlags_pool (f : KernelIrqFlags → KernelIrqFlags) :
    (s.setFlags n f).pool = s.pool :=
  rfl

@[simp] theorem controllerMask_endpoint : (s.controllerMask b source).endpoint = s.endpoint :=
  rfl

@[simp] theorem controllerMask_pool : (s.controllerMask b source).pool = s.pool :=
  rfl

@[simp] theorem controllerMask_route : (s.controllerMask b source).route = s.route :=
  rfl

@[simp] theorem controllerMask_enabled : (s.controllerMask true source).enabled source = false :=
  update_self ..

@[simp] theorem controllerEnable_endpoint : (s.controllerEnable b source).endpoint = s.endpoint :=
  rfl

@[simp] theorem controllerEnable_pool : (s.controllerEnable b source).pool = s.pool :=
  rfl

@[simp] theorem controllerEnable_route : (s.controllerEnable b source).route = s.route :=
  rfl

@[simp] theorem controllerEnable_enabled : (s.controllerEnable true source).enabled source = true :=
  update_self ..

@[simp] theorem withPool_endpoint : (s.withPool p).endpoint = s.endpoint :=
  rfl

theorem IrqSoft.setEndpoint {f : KernelIrqEndpoint → KernelIrqEndpoint}
    (hf : SameBinding (s.endpoint n) (f (s.endpoint n))) : IrqSoft s (s.setEndpoint n f) n :=
  ⟨fun _ hm => update_of_ne hm _ _, by rwa [setEndpoint_endpoint], rfl, rfl, rfl, rfl, rfl,
    fun _ _ => rfl, id, fun _ _ ht => ht⟩

theorem IrqSoft.setFlags {f : KernelIrqFlags → KernelIrqFlags}
    (hf : (f (s.endpoint n).flags).quiesced = (s.endpoint n).flags.quiesced) :
    IrqSoft s (s.setFlags n f) n :=
  .setEndpoint ⟨id, fun _ h => { h with quiesced := hf.trans h.quiesced }, rfl, rfl⟩

theorem IrqSoft.controllerMask {source : ℕ} (hs : (s.endpoint n).source = source) (b : Bool) :
    IrqSoft s (s.controllerMask b source) n := by
  refine ⟨fun _ _ => rfl, .refl _, rfl, rfl, rfl, rfl, rfl, fun source' hne => ?_, id,
    fun _ _ ht => ht⟩
  rw [hs] at hne
  cases b
  · rfl
  · exact update_of_ne hne _ _

theorem IrqSoft.controllerEnable {source : ℕ} (hs : (s.endpoint n).source = source) (b : Bool) :
    IrqSoft s (s.controllerEnable b source) n := by
  refine ⟨fun _ _ => rfl, .refl _, rfl, rfl, rfl, rfl, rfl, fun source' hne => ?_, id,
    fun _ _ ht => ht⟩
  rw [hs] at hne
  cases b
  · rfl
  · exact update_of_ne hne _ _

theorem IrqSoft.withPool (hp : Healthy p) (hw : ∀ t q, Waits p t q → Waits s.pool t q) :
    IrqSoft s (s.withPool p) n :=
  ⟨fun _ _ => rfl, .refl _, rfl, rfl, rfl, rfl, rfl, fun _ _ => rfl, fun _ => hp, hw⟩

theorem wakeWaiters_spec (h : Healthy s.pool) (n result : ℕ) :
    ∃ p woken, s.wakeWaiters n result = (true, s.withPool p, woken) ∧
      WokeAll s.pool p (irqWaiters n) result := by
  obtain ⟨p, woken, he, hw⟩ := wakeAll_woke h (irqWaiters n) result
  refine ⟨p, woken, ?_, hw⟩
  unfold IrqState.wakeWaiters
  rw [he]

end

end Astra
