import AstraKernel.Proofs.IrqDispatch

/-!
# The calls that bind, revoke and free endpoints

They wake whoever waits on an endpoint they revoke, and mask the source of one they bind or revoke.
-/

namespace Astra

open Finset Function

/-- Whoever waits on an endpoint waits for what it does not have. -/
def IrqWatched (s : IrqState) : Prop :=
  ∀ n < kernelIrqEndpointMax, ∀ t, Waits s.pool t (irqWaiters n) → IrqIdle (s.endpoint n)

/-- The kernel takes the source to be enabled: its endpoint is active and not masked, or its service
is armed. -/
def Deliverable (s : IrqState) (source : ℕ) : Prop :=
  match (s.route source).endpoint with
  | some n => irqActiveState (s.endpoint n).state ∧ (s.endpoint n).flags.masked = false
  | none => (s.route source).internalService = true ∧ (s.route source).internalArmed = true

instance (s : IrqState) (source : ℕ) : Decidable (Deliverable s source) :=
  match h : (s.route source).endpoint with
  | some n =>
    decidable_of_iff
      (irqActiveState (s.endpoint n).state ∧ (s.endpoint n).flags.masked = false)
      (by simp only [Deliverable, h])
  | none =>
    decidable_of_iff
      ((s.route source).internalService = true ∧ (s.route source).internalArmed = true)
      (by simp only [Deliverable, h])

structure IrqTrusted (s : IrqState) : Prop where
  well : ∀ n, irqActiveState (s.endpoint n).state → MaskedWell (s.endpoint n)
  enabled : ∀ source < kernelIrqSourceCount, s.enabled source = true ↔ Deliverable s source

structure IrqQuiet (s s' : IrqState) (works : Prop) : Prop where
  sound : IrqSound s'
  watched : IrqWatched s → IrqWatched s'
  trusted : works → IrqTrusted s → IrqTrusted s'

section

variable {s s' s₁ : IrqState} {n m source : ℕ} {a : IrqAnswers} {works : Prop} {p : Pool}

theorem IrqQuiet.refl (h : IrqSound s) (works : Prop) : IrqQuiet s s works :=
  ⟨h, id, fun _ => id⟩

theorem IrqQuiet.trans (h : IrqQuiet s s₁ works) (h' : IrqQuiet s₁ s' works) :
    IrqQuiet s s' works :=
  ⟨h'.sound, h'.watched ∘ h.watched, fun hw => h'.trusted hw ∘ h.trusted hw⟩

theorem IrqQuiet.corrupted (h : IrqSound s) (works : Prop) : IrqQuiet s s.corrupted works :=
  ⟨h.corrupted, id, fun _ ht => ⟨ht.well, ht.enabled⟩⟩

theorem IrqTrusted.update (ht : IrqTrusted s) (source : ℕ)
    (hwell : ∀ n, irqActiveState (s'.endpoint n).state → MaskedWell (s'.endpoint n))
    (hroute : ∀ x, x ≠ source → s'.route x = s.route x)
    (henabled : ∀ x, x ≠ source → s'.enabled x = s.enabled x)
    (hendpoint : ∀ x m, x ≠ source → (s.route x).endpoint = some m → s'.endpoint m = s.endpoint m)
    (hown : source < kernelIrqSourceCount → (s'.enabled source = true ↔ Deliverable s' source)) :
    IrqTrusted s' := by
  refine ⟨hwell, fun x hx => ?_⟩
  rcases eq_or_ne x source with rfl | hne
  · exact hown hx
  rw [henabled x hne, ht.enabled x hx]
  unfold Deliverable
  rw [hroute x hne]
  cases he : (s.route x).endpoint with
  | none => rfl
  | some m => simp only [hendpoint x m hne he]

theorem IrqWatched.change (hw : IrqWatched s)
    (hendpoint : ∀ m, m ≠ n → s'.endpoint m = s.endpoint m)
    (hwaits : ∀ t q, Waits s'.pool t q → Waits s.pool t q)
    (hown : ∀ t, ¬ Waits s'.pool t (irqWaiters n)) : IrqWatched s' := by
  intro m hm t ht
  rcases eq_or_ne m n with rfl | hne
  · exact absurd ht (hown t)
  · rw [hendpoint m hne]
    exact hw m hm t (hwaits t _ ht)

theorem IrqSound.not_waits (h : IrqSound s) (hn : n < kernelIrqEndpointMax)
    (ha : ¬ irqActiveState (s.endpoint n).state) (t : Slot) : ¬ Waits s.pool t (irqWaiters n) :=
  fun ht => ha (h.waits n hn t ht)

theorem IrqSound.routed_iff (h : IrqSound s) (hq : (s.endpoint n).flags.quiesced = false)
    (hn : (s.endpoint n).state ≠ .free) {x : ℕ} :
    (s.route x).endpoint = some n ↔ (s.endpoint n).source = x := by
  rw [h.routed x n]
  exact ⟨fun h1 => h1.2.2, fun h1 => ⟨hn, hq, h1⟩⟩

structure ToRevoking (s s' : IrqState) (n : ℕ) (works : Prop) : Prop where
  live : (s.endpoint n).state ≠ .free
  endpoint : ∀ m, m ≠ n → s'.endpoint m = s.endpoint m
  state : (s'.endpoint n).state = .revoking
  source : (s'.endpoint n).source = (s.endpoint n).source
  quiesced : (s.endpoint n).flags.quiesced = true → (s'.endpoint n).flags.quiesced = true
  healthy : Healthy s'.pool
  waits : ∀ t q, Waits s'.pool t q → Waits s.pool t q
  empty : ∀ t, ¬ Waits s'.pool t (irqWaiters n)
  route : ∀ x, x ≠ (s.endpoint n).source → s'.route x = s.route x
  routed : (s'.route (s.endpoint n).source).endpoint
    = if (s.endpoint n).flags.quiesced = false ∧ (s'.endpoint n).flags.quiesced = true then none
      else (s.route (s.endpoint n).source).endpoint
  cache : s'.cache = s.cache
  liveEndpoints : s'.liveEndpoints = s.liveEndpoints
  revoking : s'.revokingEndpoints + (if (s.endpoint n).state = .revoking then 1 else 0)
    = s.revokingEndpoints + 1
  enabled : ∀ x, x ≠ (s.endpoint n).source → s'.enabled x = s.enabled x
  agrees : works → IrqTrusted s →
    (s'.enabled (s.endpoint n).source = true ↔ Deliverable s' (s.endpoint n).source)

theorem ToRevoking.quiet (hc : ToRevoking s s' n works) (h : IrqSound s) : IrqQuiet s s' works := by
  obtain ⟨hlt, hsource⟩ := h.slot n hc.live
  have hinactive : ¬ irqActiveState (s'.endpoint n).state := by simp [hc.state, irqActiveState]
  have hrouted : ∀ x, RoutedFrom (s'.endpoint n) x ↔
      (s.route x).endpoint = some n ∧ (s'.endpoint n).flags.quiesced = false := fun x => by
    rw [h.routed x n, RoutedFrom, RoutedFrom, hc.source, hc.state]
    have h1 : (s'.endpoint n).flags.quiesced = false → (s.endpoint n).flags.quiesced = false := by
      intro h3
      by_contra h4
      simp [hc.quiesced (by simpa using h4)] at h3
    have h2 := hc.live
    tauto
  refine ⟨h.change ⟨hlt, hc.healthy, hc.endpoint, fun m _ _ t ht => hc.waits t _ ht,
    fun t ht => absurd ht (hc.empty t), fun _ => by rwa [hc.source], fun h1 => absurd h1 hinactive,
    fun x => ?_, fun x m h1 h2 => Option.some.inj (h2.symm.trans ((hrouted x).1 h1).1),
    fun m hm => ?_, hc.cache ▸ h.cacheSane, hc.cache ▸ h.hint, ?_, ?_, ?_, ?_⟩,
    fun hw => hw.change hc.endpoint hc.waits hc.empty, fun hworks ht =>
      ht.update (s.endpoint n).source (fun m hm => ?_) hc.route hc.enabled
        (fun x m hx hm => hc.endpoint m fun hmn => ?_) fun _ => hc.agrees hworks ht⟩
  · by_cases hx : x = (s.endpoint n).source
    · subst hx
      rw [hc.routed]
      cases hq : (s.endpoint n).flags.quiesced with
      | false =>
        have hr := (h.routed_iff hq hc.live (x := (s.endpoint n).source)).2 rfl
        cases hq' : (s'.endpoint n).flags.quiesced <;> simp [hrouted, hq', hr]
      | true =>
        have hr : (s.route (s.endpoint n).source).endpoint ≠ some n := fun h1 => by
          simp [((h.routed _ n).1 h1).2.1] at hq
        simp [hrouted, hr]
    · have hr : (s.route x).endpoint ≠ some n := fun h1 => hx ((h.routed x n).1 h1).2.2.symm
      rw [hc.route x hx, if_neg fun h1 => hr ((hrouted x).1 h1).1, if_neg hr]
  · rw [hc.cache, hc.state]
    rcases eq_or_ne m n with rfl | hne
    · simpa using (h.claimed m hm).2 hc.live
    · simp [hne]
  · simp [hc.cache, hc.state, hc.live]
  · simp [hc.cache, hc.state, hc.live]
  · simp [hc.liveEndpoints, hc.state, hc.live]
  · simpa [hc.state] using hc.revoking
  · rcases eq_or_ne m n with rfl | hne
    · exact absurd hm hinactive
    · rw [hc.endpoint m hne] at hm ⊢
      exact ht.well m hm
  · rw [hmn] at hm
    exact hx ((h.routed x n).1 hm).2.2.symm

theorem IrqQuiet.keepRevoking (h : IrqSound s) (hr : (s.endpoint n).state = .revoking)
    {f : KernelIrqEndpoint → KernelIrqEndpoint} (hstate : (f (s.endpoint n)).state = .revoking)
    (hsource : (f (s.endpoint n)).source = (s.endpoint n).source)
    (hquiesced : (f (s.endpoint n)).flags.quiesced = (s.endpoint n).flags.quiesced)
    (works : Prop) : IrqQuiet s (s.setEndpoint n f) works := by
  have hlive : (s.endpoint n).state ≠ .free := by simp [hr]
  have hactive : ¬ irqActiveState (s.endpoint n).state := by simp [hr, irqActiveState]
  obtain ⟨hlt, hs⟩ := h.slot n hlive
  refine ToRevoking.quiet ⟨hlive, fun m hm => setEndpoint_other f hm, ?_, ?_, fun hq => ?_, h.healthy,
    fun _ _ ht => ht, h.not_waits hlt hactive, fun _ _ => rfl, ?_, rfl, rfl, ?_, fun _ _ => rfl,
    fun _ ht => ?_⟩ h
  · rwa [setEndpoint_endpoint]
  · rwa [setEndpoint_endpoint]
  · rwa [setEndpoint_endpoint, hquiesced]
  · rw [setEndpoint_endpoint, hquiesced, if_neg fun h1 => by simp [h1.1] at h1]
    rfl
  · rw [if_pos hr]
    rfl
  · rw [setEndpoint_enabled, ht.enabled _ hs]
    unfold Deliverable
    rw [setEndpoint_route]
    cases he : (s.route (s.endpoint n).source).endpoint with
    | none => rfl
    | some m =>
      dsimp only
      rcases eq_or_ne m n with rfl | hne
      · simp [hstate, hr, irqActiveState]
      · rw [setEndpoint_other f hne]

theorem IrqSound.setEnabled (h : IrqSound s) (enabled : ℕ → Bool) :
    IrqSound { s with enabled := enabled } :=
  { h with }

theorem IrqQuiet.controllerMask (h : IrqSound s) (hd : IrqTrusted s → ¬ Deliverable s source)
    (b : Bool) (works : Prop) : IrqQuiet s (s.controllerMask b source) works := by
  refine ⟨h.setEnabled _, id, fun _ ht => ht.update source ht.well (fun _ _ => rfl)
    (fun x hx => ?_) (fun _ _ _ _ => rfl) fun hs => ?_⟩
  · cases b
    · rfl
    · exact update_of_ne hx _ _
  · have h1 : s.enabled source = false := by simpa [hd ht] using ht.enabled source hs
    have h2 : (s.controllerMask b source).enabled source = false := by
      cases b
      · exact h1
      · exact controllerMask_enabled source
    rw [h2]
    exact iff_of_false (by simp) (hd ht)

theorem not_deliverable_of_revoking (hr : (s.route source).endpoint = some n)
    (hn : (s.endpoint n).state = .revoking) : ¬ Deliverable s source := by
  unfold Deliverable
  rw [hr]
  simp [hn, irqActiveState]

theorem not_deliverable_of_cleared (hr : s.route source = noIrqRoute) : ¬ Deliverable s source := by
  unfold Deliverable
  simp [hr, noIrqRoute]

section

variable (h : IrqSound s)
include h

theorem kernelIrqRevoke_quiet (n : ℕ) (a : IrqAnswers) :
    IrqQuiet s (kernelIrqRevoke s n a).2.1 a.Works := by
  unfold kernelIrqRevoke
  split
  · exact .refl h _
  split
  · exact .refl h _
  rename_i hfree
  split
  · exact .refl h _
  rename_i hrevoking
  have ha : irqActiveState (s.endpoint n).state := irqActiveState_iff.2 ⟨hfree, hrevoking⟩
  have hfits := h.fits n ha
  obtain ⟨hlt, hsource⟩ := h.slot n hfree
  rw [if_neg (not_not.2 (h.valid_iff.2 ha))]
  dsimp only
  rw [setEndpoint_endpoint]
  generalize hs₁ : (IrqState.controllerMask _ a.mask (s.endpoint n).source) = s₁
  have hpool : s₁.pool = s.pool := by rw [← hs₁]; rfl
  obtain ⟨p, woken, hwake, hw⟩ := wakeWaiters_spec (s := s₁) (hpool ▸ h.healthy) n
    astraSyscallPeerDead
  rw [hwake]
  dsimp only
  have he : s₁.endpoint n = { s.endpoint n with
      state := .revoking
      recordCount := 0
      head := 0
      tail := 0
      flags := { (s.endpoint n).flags with masked := true } } := by
    rw [← hs₁]
    exact update_self ..
  have hroute : s₁.route = s.route := by rw [← hs₁]; rfl
  have henabled : s₁.enabled
      = if a.mask = true then update s.enabled (s.endpoint n).source false else s.enabled := by
    rw [← hs₁]
    rfl
  refine ToRevoking.quiet ⟨hfree, fun m hm => ?_, ?_, ?_, fun hq => ?_, hw.healthy,
    fun t q ht => hpool ▸ hw.waits t q ht, hw.empty, fun x _ => ?_, ?_, ?_, ?_, ?_, fun x hx => ?_,
    fun hworks _ => ?_⟩ h
  · rw [withPool_endpoint, ← hs₁]
    exact update_of_ne hm _ _
  · rw [withPool_endpoint, he]
  · rw [withPool_endpoint, he]
  · rw [withPool_endpoint, he]
    exact hq
  · exact congrFun hroute x
  · rw [withPool_endpoint, he, if_neg fun h1 => by simp [hfits.quiesced] at h1]
    exact congrArg (fun r : ℕ → KernelIrqRoute => (r _).endpoint) hroute
  · rw [← hs₁]
    rfl
  · rw [← hs₁]
    rfl
  · rw [← hs₁, if_neg hrevoking]
    rfl
  · show s₁.enabled x = _
    rw [henabled]
    split_ifs
    · exact update_of_ne hx _ _
    · rfl
  · have h1 : s₁.enabled (s.endpoint n).source = false := by
      rw [henabled, if_pos hworks.mask, update_self]
    have h2 : (s₁.route (s.endpoint n).source).endpoint = some n := by
      rw [hroute]
      exact (h.routed_iff hfits.quiesced hfree).2 rfl
    refine iff_of_false (fun h3 => ?_) (not_deliverable_of_revoking h2 ?_)
    · exact absurd (h1.symm.trans h3) (by simp)
    · rw [withPool_endpoint, he]

theorem quiesced_quiet (hr : (s.endpoint n).state = .revoking)
    (hq : (s.endpoint n).flags.quiesced = false) (pending : ℕ → Bool)
    (hoff : works → IrqTrusted s → s.enabled (s.endpoint n).source = false) :
    IrqQuiet s ({ s.setFlags n fun f => { f with quiesced := true } with
      revocationPending := pending }.clearRoute (s.endpoint n).source) works := by
  have hlive : (s.endpoint n).state ≠ .free := by simp [hr]
  have hactive : ¬ irqActiveState (s.endpoint n).state := by simp [hr, irqActiveState]
  have he : ({ s.setFlags n fun f => { f with quiesced := true } with
      revocationPending := pending }.clearRoute (s.endpoint n).source).endpoint n
        = { s.endpoint n with flags := { (s.endpoint n).flags with quiesced := true } } :=
    update_self ..
  have hcleared : ({ s.setFlags n fun f => { f with quiesced := true } with
      revocationPending := pending }.clearRoute (s.endpoint n).source).route (s.endpoint n).source
        = noIrqRoute :=
    update_self ..
  refine ToRevoking.quiet ⟨hlive, fun m hm => update_of_ne hm _ _, ?_, ?_, fun _ => ?_, h.healthy,
    fun _ _ ht => ht, h.not_waits (h.slot n hlive).1 hactive, fun x hx => update_of_ne hx _ _, ?_, rfl,
    rfl, ?_, fun _ _ => rfl, fun hworks ht => ?_⟩ h
  · rw [he]
    exact hr
  · rw [he]
  · rw [he]
  · rw [he, hcleared, if_pos ⟨hq, rfl⟩]
    rfl
  · rw [if_pos hr]
    rfl
  · exact iff_of_false (fun h1 => absurd ((hoff hworks ht).symm.trans h1) (by simp))
      (not_deliverable_of_cleared hcleared)

theorem finishQuiesce_quiet (n : ℕ) (a : IrqAnswers) : IrqQuiet s (finishQuiesce s n a).2 a.Works ∧
      ∀ s', finishQuiesce s n a = (true, s') → (s'.endpoint n).state = .revoking ∧
        (s'.endpoint n).flags.quiesced = true := by
  unfold finishQuiesce
  dsimp only
  split
  · exact ⟨.refl h _, fun s' he => by simp at he⟩
  rename_i hgate
  push Not at hgate
  obtain ⟨hn, hr, hsource⟩ := hgate
  split
  · rename_i hq
    refine ⟨.refl h _, fun s' he => ?_⟩
    obtain rfl := (Prod.mk.inj he).2
    exact ⟨hr, hq⟩
  rename_i hq
  have hq' : (s.endpoint n).flags.quiesced = false := by simpa using hq
  have hroute : (s.route (s.endpoint n).source).endpoint = some n :=
    (h.routed_iff hq' (by simp [hr])).2 rfl
  rw [if_neg (not_not.2 hroute)]
  split
  · exact ⟨.refl h _, fun s' he => by simp at he⟩
  rename_i hmask
  have hmask' : a.mask = true := by simpa using hmask
  have hmasked := IrqQuiet.controllerMask h (fun _ => not_deliverable_of_revoking hroute hr) a.mask
    a.Works
  have hflag : IrqQuiet s ((s.controllerMask a.mask (s.endpoint n).source).setFlags n fun f =>
      { f with masked := true }) a.Works :=
    hmasked.trans (IrqQuiet.keepRevoking hmasked.sound hr hr rfl rfl a.Works)
  have hoff : ((s.controllerMask a.mask (s.endpoint n).source).setFlags n fun f =>
      { f with masked := true }).enabled (s.endpoint n).source = false := by
    rw [setFlags_enabled, hmask', controllerMask_enabled]
  have he : ((s.controllerMask a.mask (s.endpoint n).source).setFlags n fun f =>
      { f with masked := true }).endpoint n
        = { s.endpoint n with flags := { (s.endpoint n).flags with masked := true } } := by
    rw [setFlags_endpoint]
    rfl
  generalize (s.controllerMask a.mask (s.endpoint n).source).setFlags n
    (fun f => { f with masked := true }) = s₁ at hflag hoff he ⊢
  split_ifs with hdevice hack
  · exact ⟨hflag, fun s' he => by simp at he⟩
  · exact ⟨hflag, fun s' he => by simp at he⟩
  have hr₁ : (s₁.endpoint n).state = .revoking := by rw [he]; exact hr
  have hs₁ : (s₁.endpoint n).source = (s.endpoint n).source := by rw [he]
  have hdone : IrqQuiet s₁ _ a.Works := quiesced_quiet hflag.sound hr₁ (by rw [he]; exact hq')
    (update s₁.revocationPending n false) fun _ _ => hs₁ ▸ hoff
  rw [hs₁] at hdone
  refine ⟨hflag.trans hdone, fun s' hs' => ?_⟩
  obtain rfl := (Prod.mk.inj hs').2
  show ((s₁.setFlags n fun f => { f with quiesced := true }).endpoint n).state = _ ∧
    ((s₁.setFlags n fun f => { f with quiesced := true }).endpoint n).flags.quiesced = true
  rw [setFlags_endpoint]
  exact ⟨hr₁, rfl⟩

theorem IrqSound.cache_release (hn : n < kernelIrqEndpointMax) (hc : (s.endpoint n).state ≠ .free) :
    kernelObjectCacheRelease s.cache n = (.ok, { s.cache with
      claimed := update s.cache.claimed n false
      nextHint := if n < s.cache.nextHint then n else s.cache.nextHint
      live := s.cache.live - 1
      units := s.cache.units - 1 }) ∧
      0 < s.cache.live ∧ 0 < s.cache.units ∧ 0 < s.liveEndpoints := by
  have hpos : 0 < (liveIrqs s).card :=
    card_pos.2 ⟨n, mem_filter.2 ⟨mem_range.2 hn, hc⟩⟩
  have hlive := h.cacheLive
  have hunits := h.units
  have hends := h.live
  refine ⟨?_, by omega, by omega, by omega⟩
  unfold kernelObjectCacheRelease
  rw [if_neg (by simp [h.cacheSane, (h.claimed n hn).2 hc]; omega), if_neg (by omega)]

end

theorem Healthy.initQueue (h : Healthy s.pool) (hw : ∀ t, ¬ Waits s.pool t (irqWaiters n)) :
    Healthy (s.initQueue n).pool :=
  h.initQueues fun q => by
    by_cases hq : q = irqWaiters n
    · subst hq
      exact .inr ⟨update_self .., hw⟩
    · exact .inl (update_of_ne hq _ _)

structure ToFree (s s' : IrqState) (n : ℕ) (works : Prop) : Prop where
  slot : n < kernelIrqEndpointMax
  inactive : ¬ irqActiveState (s.endpoint n).state
  unrouted : ∀ x, (s.route x).endpoint ≠ some n
  endpoint : ∀ m, m ≠ n → s'.endpoint m = s.endpoint m
  state : (s'.endpoint n).state = .free
  healthy : Healthy s'.pool
  waits : ∀ t q, Waits s'.pool t q → Waits s.pool t q
  route : s'.route = s.route
  claimed : ∀ m, s'.cache.claimed m = if m = n then false else s.cache.claimed m
  cacheSane : s'.cache.corrupt = false
  hint : s'.cache.nextHint < kernelIrqEndpointMax
  cacheLive : s'.cache.live + (if (s.endpoint n).state ≠ .free then 1 else 0) = s.cache.live
  units : s'.cache.units + (if (s.endpoint n).state ≠ .free then 1 else 0) = s.cache.units
  live : s'.liveEndpoints + (if (s.endpoint n).state ≠ .free then 1 else 0) = s.liveEndpoints
  revoking : s'.revokingEndpoints + (if (s.endpoint n).state = .revoking then 1 else 0)
    = s.revokingEndpoints
  enabled : works → s'.enabled = s.enabled

theorem ToFree.quiet (hc : ToFree s s' n works) (h : IrqSound s) : IrqQuiet s s' works := by
  have hinactive : ¬ irqActiveState (s'.endpoint n).state := by simp [hc.state, irqActiveState]
  have hrouted : ∀ x, ¬ RoutedFrom (s'.endpoint n) x := fun x h1 => h1.1 hc.state
  have hempty : ∀ t, ¬ Waits s'.pool t (irqWaiters n) := fun t ht =>
    h.not_waits hc.slot hc.inactive t (hc.waits t _ ht)
  refine ⟨h.change ⟨hc.slot, hc.healthy, hc.endpoint, fun m _ _ t ht => hc.waits t _ ht,
    fun t ht => absurd ht (hempty t), fun h1 => absurd hc.state h1, fun h1 => absurd h1 hinactive,
    fun x => ?_, fun x m h1 => absurd h1 (hrouted x), fun m _ => ?_, hc.cacheSane, hc.hint, ?_, ?_,
    ?_, ?_⟩, fun hw => hw.change hc.endpoint hc.waits hempty, fun hworks ht => ⟨fun m hm => ?_,
      fun x hx => ?_⟩⟩
  · rw [if_neg (hrouted x), if_neg (hc.unrouted x), hc.route]
  · rw [hc.claimed, hc.state]
    simp
  · simpa [hc.state] using hc.cacheLive
  · simpa [hc.state] using hc.units
  · simpa [hc.state] using hc.live
  · simpa [hc.state] using hc.revoking
  · rcases eq_or_ne m n with rfl | hne
    · exact absurd hm hinactive
    · rw [hc.endpoint m hne] at hm ⊢
      exact ht.well m hm
  · rw [hc.enabled hworks, ht.enabled x hx]
    unfold Deliverable
    rw [hc.route]
    cases he : (s.route x).endpoint with
    | none => rfl
    | some m => simp only [hc.endpoint m fun hm => hc.unrouted x (hm ▸ he)]

theorem releaseEndpoint_quiet (h : IrqSound s) (n : ℕ) (works : Prop) :
    IrqQuiet s (releaseEndpoint s n).2 works := by
  unfold releaseEndpoint
  dsimp only
  split
  · exact .refl h _
  rename_i hgate
  push Not at hgate
  obtain ⟨hlt, hr, -, hquiesced, -, -, -⟩ := hgate
  have hfree : (s.endpoint n).state ≠ .free := by simp [hr]
  have hactive : ¬ irqActiveState (s.endpoint n).state := by simp [hr, irqActiveState]
  have hnone := h.not_waits hlt hactive
  have hroute : ∀ x, (s.route x).endpoint ≠ some n := fun x h1 =>
    hquiesced ((h.routed x n).1 h1).2.1
  obtain ⟨hrelease, hlive, hunits, hends⟩ := h.cache_release hlt hfree
  have hrevoking : 0 < s.revokingEndpoints := by
    rw [h.revoking]
    exact card_pos.2 ⟨n, mem_filter.2 ⟨mem_range.2 hlt, hr⟩⟩
  rw [show ((s.setEndpoint n fun e => freeIrqEndpoint e.generation).initQueue n).cache = s.cache
    from rfl, hrelease]
  have hcounts : ¬ (s.liveEndpoints = 0 ∨ s.revokingEndpoints = 0) := by omega
  refine (congrArg (fun r : Bool × IrqState => IrqQuiet s r.2 works) (if_neg hcounts)).mpr ?_
  have hpool : Healthy ((s.setEndpoint n fun e => freeIrqEndpoint e.generation).initQueue n).pool :=
    Healthy.initQueue (s := s.setEndpoint n fun e => freeIrqEndpoint e.generation) h.healthy hnone
  refine ToFree.quiet ⟨hlt, hactive, hroute, fun m hm => update_of_ne hm _ _, ?_, hpool,
    fun _ _ ht => ht, rfl, fun m => ?_, h.cacheSane, ?_, ?_, ?_, ?_, ?_, fun _ => rfl⟩ h
  · show (update s.endpoint n (freeIrqEndpoint _) n).state = _
    rw [update_self]
    rfl
  · show update s.cache.claimed n false m = _
    rw [update_apply]
  · show (if n < s.cache.nextHint then n else s.cache.nextHint) < _
    split_ifs
    · exact hlt
    · exact h.hint
  · rw [if_pos hfree]
    exact Nat.sub_add_cancel hlive
  · rw [if_pos hfree]
    exact Nat.sub_add_cancel hunits
  · rw [if_pos hfree]
    exact Nat.sub_add_cancel hends
  · rw [if_pos hr]
    exact Nat.sub_add_cancel hrevoking

theorem finalizeIfPossible_quiet (h : IrqSound s) (n : ℕ) (a : IrqAnswers) :
    IrqQuiet s (finalizeIfPossible s n a).2 a.Works := by
  have hfinish := (finishQuiesce_quiet h n a).1
  unfold finalizeIfPossible
  generalize finishQuiesce s n a = r at hfinish ⊢
  obtain ⟨done, s₁⟩ := r
  cases done with
  | false => exact hfinish
  | true =>
    dsimp only at hfinish ⊢
    split_ifs
    · have hrelease := releaseEndpoint_quiet hfinish.sound n a.Works
      generalize releaseEndpoint s₁ n = r at hrelease ⊢
      obtain ⟨released, s₂⟩ := r
      cases released with
      | false => exact (hfinish.trans hrelease).trans (.corrupted hrelease.sound _)
      | true => exact hfinish.trans hrelease
    · exact hfinish

theorem serviceRevocations_quiet (batchLimit : ℕ) (a : ℕ → IrqAnswers) :
    ∀ (slots : List ℕ) {s : IrqState} (result : KernelIrqStatus) (serviced completed : ℕ),
      IrqSound s → IrqQuiet s (serviceRevocations batchLimit a slots s result serviced completed).2.1
        (∀ n, (a n).Works)
  | [], s, result, serviced, completed, h => .refl h _
  | n :: slots, s, result, serviced, completed, h => by
    unfold serviceRevocations
    split_ifs
    · exact .refl h _
    · exact serviceRevocations_quiet batchLimit a slots _ _ _ h
    have hstep := finalizeIfPossible_quiet h n (a n)
    have hstep' : IrqQuiet s (finalizeIfPossible s n (a n)).2 (∀ n, (a n).Works) :=
      ⟨hstep.sound, hstep.watched, fun hw => hstep.trusted (hw n)⟩
    generalize finalizeIfPossible s n (a n) = r at hstep' ⊢
    obtain ⟨status, s₁⟩ := r
    cases status
    case corrupt => exact hstep'
    all_goals exact hstep'.trans (serviceRevocations_quiet batchLimit a slots _ _ _ hstep'.sound)

theorem kernelIrqServiceRevocations_quiet (h : IrqSound s) (batchLimit : ℕ) (a : ℕ → IrqAnswers) :
    IrqQuiet s (kernelIrqServiceRevocations s batchLimit a).2.1 (∀ n, (a n).Works) := by
  unfold kernelIrqServiceRevocations
  split_ifs
  · exact .refl h _
  · exact serviceRevocations_quiet batchLimit a _ _ _ _ h

theorem ownerDiedEndpoints_quiet (owner : ℕ) (a : ℕ → IrqAnswers) :
    ∀ (slots : List ℕ) {s : IrqState} (result : KernelIrqStatus) (revoked woken : ℕ),
      IrqSound s → IrqQuiet s (ownerDiedEndpoints owner a slots s result revoked woken).2.1
        (∀ n, (a n).Works)
  | [], s, result, revoked, woken, h => .refl h _
  | n :: slots, s, result, revoked, woken, h => by
    unfold ownerDiedEndpoints
    split_ifs
    · exact ownerDiedEndpoints_quiet owner a slots _ _ _ h
    have hstep := kernelIrqRevoke_quiet h n (a n)
    have hstep' : IrqQuiet s (kernelIrqRevoke s n (a n)).2.1 (∀ n, (a n).Works) :=
      ⟨hstep.sound, hstep.watched, fun hw => hstep.trusted (hw n)⟩
    generalize kernelIrqRevoke s n (a n) = r at hstep' ⊢
    obtain ⟨status, s₁, endpointWoken⟩ := r
    cases status
    case corrupt => exact hstep'
    all_goals exact hstep'.trans (ownerDiedEndpoints_quiet owner a slots _ _ _ hstep'.sound)

theorem kernelIrqOwnerDied_quiet (h : IrqSound s) (owner : ℕ) (a : ℕ → IrqAnswers) :
    IrqQuiet s (kernelIrqOwnerDied s owner a).2.1 (∀ n, (a n).Works) := by
  unfold kernelIrqOwnerDied
  split_ifs
  · exact .refl h _
  · exact ownerDiedEndpoints_quiet owner a _ _ _ _ h

end

end Astra
