import AstraKernel.Proofs.IrqBind

/-!
# Which steps strand a waiter, and which forget a mask

In a run of sane calls the waiters of every endpoint are watched over up to the first step that sets
an event silently, and not after it. When the controller works, the sources it has enabled are those
the kernel takes to be enabled, up to the first step that leaves a claimed source masked.
-/

namespace Astra

open Function List

def IrqState.entered (s : IrqState) (source : ℕ) (sourceClaimed : Bool) : IrqState :=
  if sourceClaimed then s.claim source else s

/-- Some thread waits on the endpoint. -/
def IrqWaited (s : IrqState) (n : ℕ) : Prop :=
  n < kernelIrqEndpointMax ∧ ∃ t, Waits s.pool t (irqWaiters n)

def StrandingDispatch (s : IrqState) (source vector : ℕ) (timestamp : BitVec 64)
    (sourceClaimed : Bool) (a : IrqAnswers) : Prop :=
  s.poolCorrupt = false ∧ ∃ n, (s.route source).endpoint = some n ∧ IrqWaited s n ∧
    SilentDispatch s n source vector timestamp sourceClaimed a

/-- The steps that set a sticky event on an endpoint and do not wake those who wait on it: when the
controller fails, and the dispatches that are silent. -/
def Strands (s : IrqState) : IrqEvent → Prop
  | .arm n a => IrqWaited s n ∧ (s.endpoint n).state = .masked ∧ a.enable = false
  | .mask n a => IrqWaited s n ∧ a.mask = false
  | .recover n a => IrqWaited s n ∧ a.enable = false
  | .dispatch source vector timestamp a => StrandingDispatch s source vector timestamp false a
  | .dispatchClaimed source vector timestamp a => StrandingDispatch s source vector timestamp true a
  | _ => False

def ForgettingDispatch (s : IrqState) (source vector : ℕ) (timestamp : BitVec 64)
    (sourceClaimed : Bool) (a : IrqAnswers) : Prop :=
  sourceClaimed = true ∧ source < kernelIrqSourceCount ∧ Deliverable s source ∧
    (s.poolCorrupt = true ∨ ∃ n, (s.route source).endpoint = some n ∧
      ForgetfulDispatch s n source vector timestamp sourceClaimed a)

/-- The steps that leave a source masked by its claim and do not say so: an empty interrupt of an
armed edge-triggered endpoint, and any dispatch in a pool that is marked corrupt. -/
def Forgets (s : IrqState) : IrqEvent → Prop
  | .dispatchClaimed source vector timestamp a => ForgettingDispatch s source vector timestamp true a
  | _ => False

/-- The controller works throughout the step. -/
def IrqEvent.Works : IrqEvent → Prop
  | .bindInternal _ a | .armInternal _ a | .maskInternal _ a | .bind _ _ _ a | .release _ a
  | .abandon _ a | .arm _ a | .mask _ a | .recover _ a | .dispatch _ _ _ a
  | .dispatchClaimed _ _ _ a | .ack _ _ a | .revoke _ a => a.Works
  | .ownerDied _ a | .serviceRevocations _ a => ∀ n, (a n).Works
  | .thread _ | .retain _ | .waitSet .. => True

structure IrqStep (s s' : IrqState) (strands works forgets : Prop) : Prop where
  sound : IrqSound s'
  watched : IrqWatched s → (IrqWatched s' ↔ ¬ strands)
  well : works → IrqTrusted s → ∀ n, irqActiveState (s'.endpoint n).state →
    MaskedWell (s'.endpoint n)
  trusted : works → IrqTrusted s → (IrqTrusted s' ↔ ¬ forgets)

section

variable {s s' s₁ : IrqState} {n source vector x : ℕ} {timestamp : BitVec 64} {sourceClaimed : Bool}
  {a : IrqAnswers} {works silent before forgets : Prop}

theorem IrqQuiet.step (h : IrqQuiet s s' works) : IrqStep s s' False works False :=
  ⟨h.sound, fun hw => iff_of_true (h.watched hw) not_false,
    fun hworks ht => (h.trusted hworks ht).well,
    fun hworks ht => iff_of_true (h.trusted hworks ht) not_false⟩

theorem IrqStep.congr {strands strands' forgets' : Prop} (h : IrqStep s s' strands works forgets)
    (hs : IrqWatched s → (strands' ↔ strands)) (hf : works → IrqTrusted s → (forgets' ↔ forgets)) :
    IrqStep s s' strands' works forgets' :=
  ⟨h.sound, fun hw => (h.watched hw).trans (not_congr (hs hw)).symm, h.well,
    fun hworks ht => (h.trusted hworks ht).trans (not_congr (hf hworks ht)).symm⟩

section

variable (h : IrqOutcome s s' n silent before forgets)
include h

theorem IrqOutcome.watched (hn : n < kernelIrqEndpointMax) (hw : IrqWatched s) :
    IrqWatched s' ↔ ¬ (IrqWaited s n ∧ silent) := by
  have hown := h.quiet (hw n hn)
  constructor
  · rintro hw' ⟨⟨-, hwaited⟩, hsilent⟩
    exact hown.1 (hw' n hn) ⟨hwaited, hsilent⟩
  · intro hs m hm t ht
    rcases eq_or_ne m n with rfl | hne
    · exact hown.2 (fun h1 => hs ⟨⟨hn, h1.1⟩, h1.2⟩) t ht
    · rw [h.soft.endpoint m hne]
      exact hw m hm t (h.soft.waits t _ ht)

theorem IrqOutcome.wellAll (hb : before)
    (hwell : ∀ m, irqActiveState (s.endpoint m).state → MaskedWell (s.endpoint m)) (m : ℕ)
    (hm : irqActiveState (s'.endpoint m).state) : MaskedWell (s'.endpoint m) := by
  rcases eq_or_ne m n with rfl | hne
  · exact h.well hb
  · rw [h.soft.endpoint m hne] at hm ⊢
    exact hwell m hm

theorem IrqOutcome.trusted (hs : IrqSound s)
    (ha : irqActiveState (s.endpoint n).state) (hb : before)
    (hwell : ∀ m, irqActiveState (s.endpoint m).state → MaskedWell (s.endpoint m))
    (hother : ∀ x < kernelIrqSourceCount, x ≠ (s.endpoint n).source →
      (s.enabled x = true ↔ Deliverable s x)) : IrqTrusted s' ↔ ¬ forgets := by
  have hlt := (hs.slot n (irqActiveState_ne_free ha)).2
  have hroute : (s.route (s.endpoint n).source).endpoint = some n :=
    (hs.routed_iff (hs.fits n ha).quiesced (irqActiveState_ne_free ha)).2 rfl
  have hown : (s'.enabled (s.endpoint n).source = true ↔ Deliverable s' (s.endpoint n).source) ↔
      s'.enabled (s.endpoint n).source = !(s'.endpoint n).flags.masked := by
    unfold Deliverable
    rw [h.soft.route, hroute]
    simp only [h.soft.binding.active ha, true_and]
    cases s'.enabled (s.endpoint n).source <;> cases (s'.endpoint n).flags.masked <;> simp
  rw [← h.agrees hb, ← hown]
  constructor
  · exact fun ht => ht.enabled _ hlt
  · refine fun h1 => ⟨h.wellAll hb hwell, fun x hx => ?_⟩
    rcases eq_or_ne x (s.endpoint n).source with rfl | hne
    · exact h1
    rw [h.soft.enabled x hne, hother x hx hne]
    unfold Deliverable
    rw [h.soft.route]
    cases he : (s.route x).endpoint with
    | none => rfl
    | some m =>
      have hmn : m ≠ n := by
        rintro rfl
        exact hne ((hs.routed x m).1 he).2.2.symm
      simp only [h.soft.endpoint m hmn]

end

theorem IrqTrusted.agrees (ht : IrqTrusted s) (hs : IrqSound s)
    (ha : irqActiveState (s.endpoint n).state) : IrqAgrees s n := by
  have hroute : (s.route (s.endpoint n).source).endpoint = some n :=
    (hs.routed_iff (hs.fits n ha).quiesced (irqActiveState_ne_free ha)).2 rfl
  have h1 := ht.enabled _ (hs.slot n (irqActiveState_ne_free ha)).2
  unfold Deliverable at h1
  rw [hroute] at h1
  simp only [ha, true_and] at h1
  refine ⟨ht.well n ha, ?_⟩
  cases he : s.enabled (s.endpoint n).source <;> cases hm : (s.endpoint n).flags.masked <;>
    simp [he, hm] at h1 ⊢

theorem IrqOutcome.step (h : IrqOutcome s s' n silent (a.Works ∧ IrqAgrees s n) False)
    (hs : IrqSound s) (ha : irqActiveState (s.endpoint n).state) :
    IrqStep s s' (IrqWaited s n ∧ silent) a.Works False :=
  ⟨hs.soft ha h.soft, h.watched (hs.slot n (irqActiveState_ne_free ha)).1,
    fun hworks ht => h.wellAll ⟨hworks, ht.agrees hs ha⟩ ht.well, fun hworks ht =>
    h.trusted hs ha ⟨hworks, ht.agrees hs ha⟩ ht.well fun x hx _ => ht.enabled x hx⟩

theorem IrqWatched.active (hw : IrqWatched s) (h : IrqWaited s n) :
    irqActiveState (s.endpoint n).state := by
  obtain ⟨hn, t, ht⟩ := h
  exact (hw n hn t ht).active

theorem inactive_calls (hi : ¬ irqActiveState (s.endpoint n).state) :
    (∀ a, (kernelIrqArm s n a).2 = s) ∧ (∀ a, (kernelIrqMask s n a).2 = s) ∧
      (∀ a, (kernelIrqRecover s n a).2 = s) ∧ ∀ sequence a, (kernelIrqAck s n sequence a).2 = s := by
  have hv : ¬ validActiveEndpoint s n := fun hv => hi hv.1.2.1
  refine ⟨fun a => ?_, fun a => ?_, fun a => ?_, fun sequence a => ?_⟩
  · unfold kernelIrqArm
    by_cases hr : n < kernelIrqEndpointMax ∧ (s.endpoint n).state = .revoking
    · rw [if_pos hr]
    · rw [if_neg hr, if_pos hv]
  · unfold kernelIrqMask
    by_cases hr : n < kernelIrqEndpointMax ∧ (s.endpoint n).state = .revoking
    · rw [if_pos hr]
    · rw [if_neg hr, if_pos hv]
  · unfold kernelIrqRecover
    by_cases hr : n < kernelIrqEndpointMax ∧ (s.endpoint n).state = .revoking
    · rw [if_pos hr]
    · rw [if_neg hr, if_pos hv]
  · unfold kernelIrqAck
    by_cases hr : n < kernelIrqEndpointMax ∧ (s.endpoint n).state = .revoking
    · rw [if_pos hr]
    · rw [if_neg hr, if_pos (.inl hv)]

theorem call_step (hs : IrqSound s) (silent : Prop)
    (hactive : irqActiveState (s.endpoint n).state →
      IrqOutcome s s' n silent (a.Works ∧ IrqAgrees s n) False)
    (hinactive : ¬ irqActiveState (s.endpoint n).state → s' = s) :
    IrqStep s s' (IrqWaited s n ∧ silent) a.Works False := by
  by_cases ha : irqActiveState (s.endpoint n).state
  · exact (hactive ha).step hs ha
  · obtain rfl := hinactive ha
    exact (IrqQuiet.refl hs _).step.congr (fun hw => iff_of_false (fun h1 => ha (hw.active h1.1)) id)
      fun _ _ => Iff.rfl

theorem IrqQuiet.internal (h : IrqSound s) (source : ℕ)
    (hnone : (s.route source).endpoint = none) (hendpoint : s'.endpoint = s.endpoint)
    (hpool : s'.pool = s.pool) (hcache : s'.cache = s.cache)
    (hlive : s'.liveEndpoints = s.liveEndpoints)
    (hrevoking : s'.revokingEndpoints = s.revokingEndpoints)
    (hroute : ∀ x, x ≠ source → s'.route x = s.route x)
    (hnone' : (s'.route source).endpoint = none)
    (henabled : ∀ x, x ≠ source → s'.enabled x = s.enabled x)
    (hown : works → IrqTrusted s → source < kernelIrqSourceCount → (s'.enabled source = true ↔
      (s'.route source).internalService = true ∧ (s'.route source).internalArmed = true)) :
    IrqQuiet s s' works := by
  have hroutes : ∀ x, (s'.route x).endpoint = (s.route x).endpoint := fun x => by
    rcases eq_or_ne x source with rfl | hne
    · rw [hnone, hnone']
    · rw [hroute x hne]
  refine ⟨?_, fun hw => ?_, fun hworks ht => ht.update source ?_ hroute henabled
    (fun _ m _ _ => congrFun hendpoint m) fun hs => ?_⟩
  · have hlives : liveIrqs s' = liveIrqs s := by simp only [liveIrqs, hendpoint]
    have hrevokings : revokingIrqs s' = revokingIrqs s := by simp only [revokingIrqs, hendpoint]
    constructor <;> simp only [hendpoint, hpool, hcache, hlive, hrevoking, hlives, hrevokings, hroutes]
    exacts [h.healthy, h.waits, h.slot, h.fits, h.routed, h.claimed, h.cacheSane, h.hint, h.cacheLive,
      h.units, h.live, h.revoking]
  · unfold IrqWatched
    rw [hpool, hendpoint]
    exact hw
  · rw [hendpoint]
    exact ht.well
  · rw [hown hworks ht hs]
    unfold Deliverable
    rw [hnone']

theorem deliverable_internal (hnone : (s.route source).endpoint = none) :
    Deliverable s source ↔
      (s.route source).internalService = true ∧ (s.route source).internalArmed = true := by
  unfold Deliverable
  rw [hnone]

theorem entered_enabled (hx : x ≠ source) :
    (s.entered source sourceClaimed).enabled x = s.enabled x := by
  cases sourceClaimed
  · rfl
  · exact update_of_ne hx _ _

theorem entered_eq : s.entered source sourceClaimed = { s with
    enabled := (s.entered source sourceClaimed).enabled } := by
  cases sourceClaimed <;> rfl

structure Serving (s s₁ : IrqState) (source : ℕ) : Prop where
  none : (s.route source).endpoint = none
  service : (s.route source).internalService = true
  same : ∃ route enabled, s₁ = { s with route := route, enabled := enabled }
  route : ∀ x, x ≠ source → s₁.route x = s.route x
  own : ∃ armed, s₁.route source = { s.route source with internalArmed := armed }
  enabled : ∀ x, x ≠ source → s₁.enabled x = s.enabled x

section

variable (h : Serving s s₁ source)
include h

theorem Serving.setArmed (armed : Bool) : Serving s (s₁.setInternalArmed source armed) source := by
  obtain ⟨route, enabled, rfl⟩ := h.same
  obtain ⟨old, hown⟩ := h.own
  refine ⟨h.none, h.service, ⟨_, enabled, rfl⟩, fun x hx => ?_, ⟨armed, ?_⟩, h.enabled⟩
  · exact (update_of_ne hx _ _).trans (h.route x hx)
  · refine (update_self ..).trans ?_
    rw [hown]

theorem Serving.mask (b : Bool) : Serving s (s₁.controllerMask b source) source := by
  obtain ⟨route, enabled, rfl⟩ := h.same
  refine ⟨h.none, h.service, ⟨route, _, rfl⟩, h.route, h.own, fun x hx => ?_⟩
  cases b
  · exact h.enabled x hx
  · exact (update_of_ne hx _ _).trans (h.enabled x hx)

theorem Serving.enable (b : Bool) : Serving s (s₁.controllerEnable b source) source := by
  obtain ⟨route, enabled, rfl⟩ := h.same
  refine ⟨h.none, h.service, ⟨route, _, rfl⟩, h.route, h.own, fun x hx => ?_⟩
  cases b
  · exact h.enabled x hx
  · exact (update_of_ne hx _ _).trans (h.enabled x hx)

end

theorem Serving.quiet (hc : Serving s s₁ source) (h : IrqSound s)
    (hown : works → IrqTrusted s → source < kernelIrqSourceCount →
      s₁.enabled source = (s₁.route source).internalArmed) : IrqQuiet s s₁ works := by
  obtain ⟨armed, he⟩ := hc.own
  obtain ⟨route, enabled, rfl⟩ := hc.same
  refine .internal h source hc.none rfl rfl rfl rfl rfl hc.route (by rw [he]; exact hc.none) hc.enabled
    fun hworks ht hs => ?_
  rw [hown hworks ht hs, he]
  simp [hc.service]

@[simp] theorem setInternalArmed_own (armed : Bool) :
    ((s.setInternalArmed source armed).route source).internalArmed = armed := by
  simp [IrqState.setInternalArmed, IrqState.setRoute]

@[simp] theorem setInternalArmed_enabled (armed : Bool) :
    (s.setInternalArmed source armed).enabled = s.enabled :=
  rfl

theorem serveInternal_quiet (hc : Serving s s₁ source) (h : IrqSound s) (a : IrqAnswers)
    (hedge : a.Works → IrqTrusted s → source < kernelIrqSourceCount →
      ¬ (s₁.route source).trigger = .level → sourceClaimed = false → s₁.enabled source = true) :
    IrqQuiet s (serveInternal s₁ source sourceClaimed a).2.1 a.Works := by
  unfold serveInternal
  split
  · exact ((hc.setArmed false).mask a.maskAgain).quiet h fun hworks _ _ => by simp [hworks.maskAgain]
  split
  · by_cases henable : a.enable = false
    · rw [if_pos henable]
      exact hc.quiet h fun hworks _ _ => by simp [hworks.enable] at henable
    · rw [if_neg henable]
      exact ((hc.enable a.enable).setArmed true).quiet h fun hworks _ _ => by simp [hworks.enable]
  · rename_i hmasked
    rw [not_or] at hmasked
    exact (hc.setArmed true).quiet h fun hworks ht hs => by
      simp [hedge hworks ht hs hmasked.1 (by simpa using hmasked.2)]

theorem dispatchInternal_quiet (h : IrqSound s) (hnone : (s.route source).endpoint = none)
    (hservice : (s.route source).internalService = true) (vector : ℕ) (a : IrqAnswers) :
    IrqQuiet s (dispatchInternal (s.entered source sourceClaimed) source vector sourceClaimed a).2.1
      a.Works := by
  have hbefore : IrqTrusted s → source < kernelIrqSourceCount →
      (s.route source).internalArmed = true → sourceClaimed = false →
        (s.entered source sourceClaimed).enabled source = true := by
    rintro ht hs harmed rfl
    exact (ht.enabled source hs).2 ((deliverable_internal hnone).2 ⟨hservice, harmed⟩)
  have hroute : (s.entered source sourceClaimed).route = s.route := by rw [entered_eq]
  have hc : Serving s (s.entered source sourceClaimed) source := by
    refine ⟨hnone, hservice, ⟨s.route, _, entered_eq⟩, fun x _ => congrFun hroute x,
      ⟨(s.route source).internalArmed, congrFun hroute source⟩, fun x hx => entered_enabled hx⟩
  unfold dispatchInternal
  dsimp only
  generalize s.entered source sourceClaimed = s₁ at hbefore hroute hc ⊢
  rw [hroute]
  split
  · exact ((hc.setArmed false).mask a.mask).quiet h fun hworks _ _ => by simp [hworks.mask]
  split
  · rename_i harmed
    exact (hc.mask a.mask).quiet h fun hworks _ _ => by simp [hworks.mask, hroute, harmed]
  rename_i harmed
  split
  · rename_i hlevel
    have hmasked : Serving s (if sourceClaimed = true then s₁ else s₁.controllerMask a.mask source)
        source := by
      split_ifs
      · exact hc
      · exact hc.mask a.mask
    generalize (if sourceClaimed = true then s₁ else s₁.controllerMask a.mask source) = s₂ at hmasked ⊢
    split
    · rename_i hmask
      exact (hmasked.setArmed false).quiet h fun hworks _ _ => by simp [hworks.mask] at hmask
    · refine serveInternal_quiet (hmasked.setArmed false) h a fun _ _ _ h1 => ?_
      obtain ⟨armed, he⟩ := (hmasked.setArmed false).own
      rw [he] at h1
      exact absurd hlevel h1
  · exact serveInternal_quiet hc h a fun _ ht hs _ hclaimed =>
      hbefore ht hs (by simpa using harmed) hclaimed

theorem quarantine_quiet (h : IrqSound s) (hd : ¬ Deliverable s source) (a : IrqAnswers) :
    IrqQuiet s ((s.entered source sourceClaimed).controllerMask a.mask source) a.Works := by
  have hsame : (s.entered source sourceClaimed).controllerMask a.mask source = { s with
      enabled := ((s.entered source sourceClaimed).controllerMask a.mask source).enabled } := by
    conv_lhs => rw [entered_eq]
    cases sourceClaimed <;> rfl
  rw [hsame]
  refine ⟨h.setEnabled _, id, fun hworks ht => ht.update source ht.well (fun _ _ => rfl)
    (fun x hx => ?_) (fun _ _ _ _ => rfl) fun _ => ?_⟩
  · rw [← @entered_enabled s source x sourceClaimed hx]
    cases a.mask
    · rfl
    · exact update_of_ne hx _ _
  · rw [hworks.mask]
    exact iff_of_false (by simp) hd

theorem dispatchEndpoint_step (h : IrqSound s) (hroute : (s.route source).endpoint = some n)
    (hsane : s.poolCorrupt = false) :
    IrqStep s (dispatchEndpoint (s.entered source sourceClaimed) n source vector timestamp
        sourceClaimed a).2.1
      (StrandingDispatch s source vector timestamp sourceClaimed a) a.Works
      (ForgettingDispatch s source vector timestamp sourceClaimed a) := by
  obtain ⟨hfree, hquiesced, hsource⟩ := (h.routed source n).1 hroute
  obtain ⟨hn, hlt⟩ := h.slot n hfree
  rw [hsource] at hlt
  have h₀ : IrqSound (s.entered source sourceClaimed) := by
    rw [entered_eq]
    exact h.setEnabled _
  have he₀ : (s.entered source sourceClaimed).endpoint = s.endpoint := by rw [entered_eq]
  have hr₀ : (s.entered source sourceClaimed).route = s.route := by rw [entered_eq]
  have hp₀ : (s.entered source sourceClaimed).pool = s.pool := by rw [entered_eq]
  by_cases ha : irqActiveState (s.endpoint n).state
  · have hout := @dispatchEndpoint_outcome _ n source vector timestamp sourceClaimed a h₀ (he₀ ▸ ha)
      (he₀ ▸ hsource)
    have hbefore : a.Works → IrqTrusted s →
        DispatchBefore (s.entered source sourceClaimed) n source sourceClaimed a := by
      intro hworks ht
      have hagrees := ht.agrees h ha
      refine ⟨hworks, he₀ ▸ hagrees.well, ?_⟩
      rw [he₀]
      cases sourceClaimed with
      | true => simp [IrqState.entered, IrqState.claim]
      | false => simpa [IrqState.entered, hsource] using hagrees.enabled
    refine ⟨h₀.soft (he₀ ▸ ha) hout.soft, fun hw => ?_, fun hworks ht => hout.wellAll
      (hbefore hworks ht) (by rw [he₀]; exact ht.well), fun hworks ht => ?_⟩
    · have hw₀ : IrqWatched (s.entered source sourceClaimed) := by
        unfold IrqWatched
        rw [he₀, hp₀]
        exact hw
      rw [hout.watched hn hw₀]
      refine not_congr ⟨fun ⟨h1, h2⟩ => ⟨hsane, n, hroute, ?_, ?_⟩, fun ⟨_, m, h1, h2, h3⟩ => ?_⟩
      · unfold IrqWaited at h1 ⊢
        rwa [hp₀] at h1
      · unfold SilentDispatch Workless at h2 ⊢
        rwa [he₀, hr₀] at h2
      · cases hroute.symm.trans h1
        unfold IrqWaited SilentDispatch Workless at *
        rw [he₀, hr₀, hp₀]
        exact ⟨h2, h3⟩
    · rw [hout.trusted h₀ (he₀ ▸ ha) (hbefore hworks ht) (by
        rw [he₀]
        exact ht.well) fun x hx hne => ?_]
      · refine not_congr ⟨fun h1 => ?_, fun ⟨_, _, _, h1⟩ => ?_⟩
        · unfold ForgetfulDispatch Workless at h1
          rw [he₀, hr₀] at h1
          refine ⟨h1.1, hlt, ?_, .inr ⟨n, hroute, h1⟩⟩
          unfold Deliverable
          rw [hroute]
          exact ⟨ha, h1.2.2.1⟩
        · obtain ⟨m, hm, h1⟩ := h1.resolve_left (by simp [hsane])
          cases hroute.symm.trans hm
          unfold ForgetfulDispatch Workless at *
          rw [he₀, hr₀]
          exact h1
      · rw [he₀, hsource] at hne
        rw [entered_enabled hne, ht.enabled x hx]
        unfold Deliverable
        rw [he₀, hr₀]
  · have hrevoking : (s.endpoint n).state = .revoking := by
      by_contra h1
      exact ha (irqActiveState_iff.2 ⟨hfree, h1⟩)
    have hinvalid : ¬ validActiveEndpoint (s.entered source sourceClaimed) n := fun hv =>
      ha (he₀ ▸ hv.1.2.1)
    have hdeliver : ¬ Deliverable s source := not_deliverable_of_revoking hroute hrevoking
    have hsame : (dispatchEndpoint (s.entered source sourceClaimed) n source vector timestamp
        sourceClaimed a).2.1 = (s.entered source sourceClaimed).controllerMask a.mask source := by
      unfold dispatchEndpoint
      rw [if_pos hinvalid, he₀, if_pos hrevoking]
      unfold quarantineMasked
      rw [he₀, hsource]
    rw [hsame]
    have hquiet := @quarantine_quiet s source sourceClaimed h hdeliver a
    refine hquiet.step.congr (fun hw => iff_of_false ?_ id) fun _ _ => iff_of_false ?_ id
    · rintro ⟨-, m, h1, h2, -⟩
      cases hroute.symm.trans h1
      exact ha (hw.active h2)
    · exact fun h1 => hdeliver h1.2.2.1

theorem dispatchCommon_step (h : IrqSound s) :
    IrqStep s (dispatchCommon (s.entered source sourceClaimed) source vector timestamp
        sourceClaimed a).2.1
      (StrandingDispatch s source vector timestamp sourceClaimed a) a.Works
      (ForgettingDispatch s source vector timestamp sourceClaimed a) := by
  have hr₀ : (s.entered source sourceClaimed).route = s.route := by rw [entered_eq]
  have hc₀ : (s.entered source sourceClaimed).poolCorrupt = s.poolCorrupt := by rw [entered_eq]
  have h₀ : IrqSound (s.entered source sourceClaimed) := by
    rw [entered_eq]
    exact h.setEnabled _
  have hw₀ : IrqWatched s → IrqWatched (s.entered source sourceClaimed) := by
    rw [entered_eq]
    exact id
  unfold dispatchCommon
  split
  · rename_i hsource
    have hquiet : IrqQuiet s (s.entered source sourceClaimed) a.Works := by
      refine ⟨h₀, hw₀, fun _ ht => ⟨?_, fun x hx => ?_⟩⟩
      · rw [entered_eq]
        exact ht.well
      · rw [entered_enabled (hx.trans_le hsource).ne, ht.enabled x hx, entered_eq]
        rfl
    refine hquiet.step.congr (fun hw => iff_of_false ?_ id) fun _ _ => iff_of_false ?_ id
    · rintro ⟨-, n, hn, -, -⟩
      obtain ⟨hfree, -, rfl⟩ := (h.routed source n).1 hn
      exact hsource.not_gt (h.slot n hfree).2
    · exact fun h1 => hsource.not_gt h1.2.1
  rename_i hsource
  rw [hc₀]
  split
  · rename_i hcorrupt
    refine ⟨h₀, fun hw => iff_of_true (hw₀ hw) fun h1 => by simp [h1.1] at hcorrupt, fun _ ht => ?_,
      fun hworks ht => ?_⟩
    · rw [entered_eq]
      exact ht.well
    have hown : ForgettingDispatch s source vector timestamp sourceClaimed a ↔
        sourceClaimed = true ∧ Deliverable s source :=
      ⟨fun h1 => ⟨h1.1, h1.2.2.1⟩, fun h1 => ⟨h1.1, Nat.lt_of_not_ge hsource, h1.2, .inl hcorrupt⟩⟩
    rw [hown]
    have hsame : Deliverable (s.entered source sourceClaimed) source ↔ Deliverable s source := by
      rw [entered_eq]
      rfl
    cases sourceClaimed with
    | false => exact iff_of_true ht (by simp)
    | true =>
      have hoff : (s.entered source true).enabled source = false := update_self ..
      rw [eq_self, true_and]
      show IrqTrusted (s.entered source true) ↔ _
      constructor
      · intro ht' h1
        simp [(ht'.enabled source (Nat.lt_of_not_ge hsource)).2 (hsame.2 h1)] at hoff
      · intro h1
        refine ht.update source ht.well (fun _ _ => rfl) (fun x hx => entered_enabled hx)
          (fun _ _ _ _ => rfl) fun _ => ?_
        rw [hoff, hsame]
        exact iff_of_false (by simp) h1
  rename_i hcorrupt
  rw [hr₀]
  cases hroute : (s.route source).endpoint with
  | some n => exact dispatchEndpoint_step h hroute (by simpa using hcorrupt)
  | none =>
    have hquiet : IrqQuiet s (if (s.route source).internalService = true then
          dispatchInternal (s.entered source sourceClaimed) source vector sourceClaimed a
        else
          let r := quarantineUnclaimed (s.entered source sourceClaimed) source a
          (r.1, r.2, 0)).2.1 a.Works := by
      split
      · rename_i hservice
        exact dispatchInternal_quiet h hroute hservice vector a
      · rename_i hservice
        exact quarantine_quiet h (fun h1 => hservice ((deliverable_internal hroute).1 h1).1) a
    refine hquiet.step.congr (fun hw => iff_of_false ?_ id) fun hworks ht => iff_of_false ?_ id
    · rintro ⟨-, n, hn, -, -⟩
      simp [hroute] at hn
    · rintro ⟨-, -, -, h1 | ⟨n, hn, -⟩⟩
      · exact hcorrupt h1
      · simp [hroute] at hn

theorem irqProbes_spec {K : KernelThreadWaitSpec → Prop}
    (hk : ∀ n spec, kernelIrqPrepareWait s n = (.wouldBlock, spec) → K spec) :
    ∀ (members : List IrqMember) (index : ℕ) (before specs : List KernelThreadWaitSpec),
      (∀ spec, .pending spec ∈ members → K spec) → (∀ spec ∈ before, K spec) →
      irqProbes s index before members = .specs specs → ∀ spec ∈ specs, K spec
  | [], index, before, specs, _, hbefore, he => by
    obtain rfl := IrqProbe.specs.inj he
    exact fun spec hspec => hbefore spec (mem_reverse.1 hspec)
  | .irq n :: members, index, before, specs, hm, hbefore, he => by
    rw [irqProbes] at he
    have hprep := hk n
    generalize kernelIrqPrepareWait s n = r at he hprep
    obtain ⟨status, spec⟩ := r
    cases status
    case wouldBlock =>
      refine irqProbes_spec hk members _ _ specs (fun x hx => hm x (mem_cons_of_mem _ hx))
        (fun x hx => ?_) he
      rcases mem_cons.1 hx with rfl | hx
      · exact hprep x rfl
      · exact hbefore x hx
    case ok =>
      generalize kernelIrqRead s n = r at he
      obtain ⟨status, record, flags⟩ := r
      cases status <;> simp at he
    all_goals simp at he
  | .pending spec :: members, index, before, specs, hm, hbefore, he => by
    refine irqProbes_spec hk members _ _ specs (fun x hx => hm x (mem_cons_of_mem _ hx))
      (fun x hx => ?_) he
    rcases mem_cons.1 hx with rfl | hx
    · exact hm x mem_cons_self
    · exact hbefore x hx
  | .ready :: members, index, before, specs, hm, hbefore, he => by simp [irqProbes] at he

theorem kernelIrqPrepareWait_spec {spec : KernelThreadWaitSpec}
    (he : kernelIrqPrepareWait s n = (.wouldBlock, spec)) :
    spec.queue = some (irqWaiters n) ∧ IrqIdle (s.endpoint n) := by
  unfold kernelIrqPrepareWait at he
  by_cases hn : kernelIrqEndpointMax ≤ n
  · simp [if_pos hn] at he
  rw [if_neg hn] at he
  by_cases hr : (s.endpoint n).state = .revoking
  · simp [if_pos hr] at he
  rw [if_neg hr] at he
  by_cases hv : ¬ validActiveEndpoint s n
  · simp [if_pos hv] at he
  rw [if_neg hv] at he
  by_cases hready : (s.endpoint n).recordCount ≠ 0 ∨ (s.endpoint n).flags.sticky = true
  · simp [if_pos hready] at he
  rw [if_neg hready] at he
  push Not at hready
  exact ⟨by rw [← (Prod.mk.inj he).2], (not_not.1 hv).1.2.1, hready.1, by simpa using hready.2⟩

theorem IrqQuiet.setWaitOutputs (h : IrqSound s) (t : Slot) (multiple : Bool) (index detail : ℕ) :
    IrqQuiet s (s.withPool (setWaitOutputs s.pool t multiple index detail)) works :=
  ⟨h.withPool (h.healthy.setWaitOutputs t multiple index detail) fun n hn x hx =>
      h.waits n hn x (setWaitOutputs_waits.1 hx),
    fun hw n hn x hx => hw n hn x (setWaitOutputs_waits.1 hx), fun _ ht => ⟨ht.well, ht.enabled⟩⟩

theorem waitIrqSet_quiet (h : IrqSound s) {t : Slot} {members : List IrqMember} {multiple : Bool}
    {now deadline : ℕ} {rowMemory heapMemory : Bool}
    (hs : IrqSane s (.waitSet t members multiple now deadline rowMemory heapMemory)) :
    IrqQuiet s (waitIrqSet s t members multiple now deadline rowMemory heapMemory).2.2 works := by
  have hspecs := irqProbes_spec (s := s) (K := fun spec => outerQueue s.pool spec.queue ∧
      ∀ m < kernelIrqEndpointMax, spec.queue = some (irqWaiters m) → IrqIdle (s.endpoint m))
    (fun n spec he => by
      obtain ⟨hq, hi⟩ := kernelIrqPrepareWait_spec he
      rw [hq]
      refine ⟨trivial, fun m _ hm => ?_⟩
      obtain rfl := QueueRef.object.inj (Option.some.inj hm)
      exact hi) members 0 []
  unfold waitIrqSet
  generalize irqProbes s 0 [] members = r at hspecs
  cases r with
  | specs specs =>
    have hk := hspecs specs (fun spec hspec => ⟨(hs spec hspec).1, fun m hm he =>
      absurd he ((hs spec hspec).2 m hm)⟩) (by simp) rfl
    obtain ⟨hp, hw⟩ := waitBlock_waits h.healthy (t := t) (fun spec hspec => (hk spec hspec).1)
      multiple now deadline rowMemory heapMemory
    refine ⟨h.withPool hp fun n hn x hx => ?_, fun hwatched n hn x hx => ?_,
      fun _ ht => ⟨ht.well, ht.enabled⟩⟩
    · rcases hw x _ hx with h1 | ⟨spec, hspec, hq⟩
      · exact h.waits n hn x h1
      · exact ((hk spec hspec).2 n hn hq).active
    · rcases hw x _ hx with h1 | ⟨spec, hspec, hq⟩
      · exact hwatched n hn x h1
      · exact (hk spec hspec).2 n hn hq
  | events index flags => exact .setWaitOutputs h t multiple index _
  | ended index status =>
    split_ifs
    · exact .setWaitOutputs h t true index 0
    · exact .refl h _
  | failed index status => exact .refl h _

theorem kernelIrqBindInternal_quiet (h : IrqSound s) (binding : KernelIrqInternalBinding)
    (a : IrqAnswers) : IrqQuiet s (kernelIrqBindInternal s binding a).2 a.Works := by
  unfold kernelIrqBindInternal
  split
  · exact .refl h _
  split
  · exact .refl h _
  split
  · exact .refl h _
  rename_i hroute
  unfold routeInUse at hroute
  push Not at hroute
  have hd : ¬ Deliverable s binding.source := fun h1 =>
    hroute.2 ((deliverable_internal hroute.1).1 h1).1
  have hmask := IrqQuiet.controllerMask h (fun _ => hd) a.mask a.Works
  split_ifs with hfail
  · exact hmask
  · refine .internal h binding.source hroute.1 rfl rfl rfl rfl rfl (fun x hx => update_of_ne hx _ _)
      ?_ (fun x hx => ?_) fun hworks _ _ => ?_
    · simpa [IrqState.setRoute] using hroute.1
    · show (s.controllerMask a.mask binding.source).enabled x = _
      cases a.mask
      · rfl
      · exact update_of_ne hx _ _
    · simp [IrqState.setRoute, IrqState.controllerMask, hworks.mask]

theorem kernelIrqArmInternal_quiet (h : IrqSound s) (source : ℕ) (a : IrqAnswers) :
    IrqQuiet s (kernelIrqArmInternal s source a).2 a.Works := by
  unfold kernelIrqArmInternal
  split_ifs with hsource hroute harmed henable
  · exact .refl h _
  · exact .refl h _
  · exact .refl h _
  · exact .refl h _
  push Not at hroute
  refine .internal h source hroute.1 rfl rfl rfl rfl rfl (fun x hx => update_of_ne hx _ _)
    ?_ (fun x hx => ?_) fun hworks _ _ => ?_
  · simpa [IrqState.setRoute] using hroute.1
  · show (s.controllerEnable a.enable source).enabled x = _
    cases a.enable
    · rfl
    · exact update_of_ne hx _ _
  · simpa [IrqState.setRoute, IrqState.controllerEnable, hworks.enable] using hroute.2

theorem kernelIrqMaskInternal_quiet (h : IrqSound s) (source : ℕ) (a : IrqAnswers) :
    IrqQuiet s (kernelIrqMaskInternal s source a).2 a.Works := by
  unfold kernelIrqMaskInternal
  split_ifs with hsource hroute hmask
  · exact .refl h _
  · exact .refl h _
  · exact .refl h _
  push Not at hroute
  refine .internal h source hroute.1 rfl rfl rfl rfl rfl (fun x hx => update_of_ne hx _ _)
    ?_ (fun x hx => ?_) fun hworks _ _ => ?_
  · simpa [IrqState.setRoute] using hroute.1
  · show (s.controllerMask a.mask source).enabled x = _
    cases a.mask
    · rfl
    · exact update_of_ne hx _ _
  · simp [IrqState.setRoute, IrqState.controllerMask, hworks.mask]

end

end Astra
