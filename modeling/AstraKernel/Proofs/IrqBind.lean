import AstraKernel.Proofs.IrqQuiet

/-!
# References, new bindings and the services inside the kernel
-/

namespace Astra

open Function

section

variable {s s' : IrqState} {n source : ℕ} {a : IrqAnswers} {works : Prop}

section

variable (h : IrqSound s)
include h

theorem IrqQuiet.setReferences (ha : irqActiveState (s.endpoint n).state)
    {references : ℕ} (hr : references ≠ 0) (works : Prop) :
    IrqQuiet s (s.setEndpoint n fun e => { e with references := references }) works := by
  have hsoft : IrqSoft s (s.setEndpoint n fun e => { e with references := references }) n :=
    .setEndpoint ⟨id, fun _ hf => { hf with references := hr }, rfl, rfl⟩
  refine ⟨h.soft ha hsoft, fun hw m hm t ht => ?_, fun _ ht =>
    ht.update (s.endpoint n).source (fun m hm => ?_) (fun _ _ => rfl) (fun _ _ => rfl)
      (fun x m hx hm => setEndpoint_other _ fun hmn => ?_) fun hs => ?_⟩
  · rcases eq_or_ne m n with rfl | hne
    · have hi := hw m hm t ht
      rw [setEndpoint_endpoint]
      exact ⟨hi.active, hi.empty, hi.calm⟩
    · rw [setEndpoint_other _ hne]
      exact hw m hm t ht
  · rcases eq_or_ne m n with rfl | hne
    · have hwell := ht.well m ha
      rw [setEndpoint_endpoint]
      exact ⟨hwell.sticky, hwell.admin, hwell.state⟩
    · rw [setEndpoint_other _ hne] at hm ⊢
      exact ht.well m hm
  · rw [hmn] at hm
    exact hx ((h.routed x n).1 hm).2.2.symm
  · have hr : (s.route (s.endpoint n).source).endpoint = some n :=
      (h.routed_iff (h.fits n ha).quiesced (irqActiveState_ne_free ha)).2 rfl
    rw [setEndpoint_enabled, ht.enabled _ hs]
    unfold Deliverable
    rw [setEndpoint_route, hr]
    simp only [setEndpoint_endpoint]

theorem kernelIrqHandleRetain_quiet (n : ℕ) (works : Prop) :
    IrqQuiet s (kernelIrqHandleRetain s n).2 works := by
  unfold kernelIrqHandleRetain
  split_ifs with hgate
  · exact .refl h _
  · rw [not_or, not_not] at hgate
    exact .setReferences h (h.valid_iff.1 hgate.1) (Nat.succ_ne_zero _) works

theorem kernelIrqRevoke_state (hn : n < kernelIrqEndpointMax)
    (hfree : (s.endpoint n).state ≠ .free) :
    ((kernelIrqRevoke s n a).2.1.endpoint n).state = .revoking := by
  unfold kernelIrqRevoke
  rw [if_neg hn.not_ge, if_neg hfree]
  by_cases hr : (s.endpoint n).state = .revoking
  · rwa [if_pos hr]
  have ha : irqActiveState (s.endpoint n).state := irqActiveState_iff.2 ⟨hfree, hr⟩
  rw [if_neg hr, if_neg (not_not.2 (h.valid_iff.2 ha))]
  dsimp only
  rw [setEndpoint_endpoint]
  generalize hs₁ : (IrqState.controllerMask _ a.mask (s.endpoint n).source) = s₁
  have hpool : s₁.pool = s.pool := by rw [← hs₁]; rfl
  obtain ⟨p, woken, hwake, -⟩ := wakeWaiters_spec (s := s₁) (hpool ▸ h.healthy) n
    astraSyscallPeerDead
  rw [hwake]
  have he : s₁.endpoint n = { s.endpoint n with
      state := .revoking
      recordCount := 0
      head := 0
      tail := 0
      flags := { (s.endpoint n).flags with masked := true } } := by
    rw [← hs₁]
    exact update_self ..
  show (s₁.endpoint n).state = _
  rw [he]

theorem kernelIrqHandleRelease_quiet (n : ℕ) (a : IrqAnswers) :
    IrqQuiet s (kernelIrqHandleRelease s n a) a.Works := by
  unfold kernelIrqHandleRelease
  split
  · exact .corrupted h _
  rename_i hgate
  push Not at hgate
  obtain ⟨hn, hfree, -⟩ := hgate
  split
  · by_cases hr : (s.endpoint n).state = .revoking
    · exact .keepRevoking h hr hr rfl rfl _
    · exact .setReferences h (irqActiveState_iff.2 ⟨hfree, hr⟩) (by omega) _
  have hrevoked : IrqQuiet s (if (s.endpoint n).state ≠ .revoking then kernelIrqRevoke s n a
      else (.ok, s, 0)).2.1 a.Works ∧
      ((if (s.endpoint n).state ≠ .revoking then kernelIrqRevoke s n a
        else (.ok, s, 0)).2.1.endpoint n).state = .revoking := by
    by_cases hr : (s.endpoint n).state = .revoking
    · rw [if_neg (not_not.2 hr)]
      exact ⟨.refl h _, hr⟩
    · rw [if_pos hr]
      exact ⟨kernelIrqRevoke_quiet h n a, kernelIrqRevoke_state h hn hfree⟩
  generalize (if (s.endpoint n).state ≠ .revoking then kernelIrqRevoke s n a else (.ok, s, 0)) = r
    at hrevoked ⊢
  obtain ⟨status, s₁, woken⟩ := r
  obtain ⟨hquiet, hr⟩ := hrevoked
  dsimp only at hquiet hr ⊢
  split
  · exact hquiet.trans (.corrupted hquiet.sound _)
  have hlast : IrqQuiet s (s₁.setEndpoint n fun e => { e with references := 0 }) a.Works :=
    hquiet.trans (.keepRevoking hquiet.sound hr hr rfl rfl _)
  split_ifs
  · have hrelease := releaseEndpoint_quiet hlast.sound n a.Works
    generalize releaseEndpoint (s₁.setEndpoint n fun e => { e with references := 0 }) n = r
      at hrelease ⊢
    obtain ⟨released, s₂⟩ := r
    cases released with
    | false => exact (hlast.trans hrelease).trans (.corrupted hrelease.sound _)
    | true => exact hlast.trans hrelease
  · exact hlast

theorem kernelIrqAbandonUnpublished_quiet (n : ℕ) (a : IrqAnswers) :
    IrqQuiet s (kernelIrqAbandonUnpublished s n a) a.Works := by
  unfold kernelIrqAbandonUnpublished
  split_ifs
  · exact .corrupted h _
  · exact kernelIrqHandleRelease_quiet h n a

end

theorem claimIrqSlot_spec {c : IrqCache} (hhint : c.nextHint < kernelIrqEndpointMax) :
    ∀ (fuel offset : ℕ) {slot : ℕ}, fuel + offset ≤ kernelIrqEndpointMax →
      claimIrqSlot c fuel offset = some slot → slot < kernelIrqEndpointMax ∧ c.claimed slot = false
  | 0, _, _, _, he => by simp [claimIrqSlot] at he
  | fuel + 1, offset, slot, hf, he => by
    unfold claimIrqSlot at he
    dsimp only at he
    generalize hcandidate : (if kernelIrqEndpointMax ≤ c.nextHint + offset then
      c.nextHint + offset - kernelIrqEndpointMax else c.nextHint + offset) = candidate at he
    have hlt : candidate < kernelIrqEndpointMax := by
      rw [← hcandidate]
      split_ifs <;> omega
    split at he
    · exact claimIrqSlot_spec hhint fuel (offset + 1) (by omega) he
    · rename_i hclaimed
      cases he
      exact ⟨hlt, by simpa using hclaimed⟩

def IrqCache.withSlot (c : IrqCache) (slot : ℕ) : IrqCache :=
  { c with
    claimed := update c.claimed slot true
    nextHint := if slot + 1 = kernelIrqEndpointMax then 0 else slot + 1
    live := c.live + 1
    units := c.units + 1 }

theorem liveIrqs_le (s : IrqState) : (liveIrqs s).card ≤ kernelIrqEndpointMax :=
  (Finset.card_filter_le _ _).trans (Finset.card_range _).le

theorem kernelObjectCacheClaim_spec (h : IrqSound s) (attempt : Bool) :
    (∃ n, kernelObjectCacheClaim s.cache attempt = (.ok, s.cache.withSlot n, n) ∧
      n < kernelIrqEndpointMax ∧ (s.endpoint n).state = .free) ∨
      kernelObjectCacheClaim s.cache attempt = (.unavailable, s.cache, 0) := by
  unfold kernelObjectCacheClaim
  rw [if_neg (by simp [h.cacheSane])]
  by_cases hattempt : attempt = false
  · exact .inr (if_pos hattempt)
  rw [if_neg hattempt]
  cases hslot : claimIrqSlot s.cache kernelIrqEndpointMax 0 with
  | none => exact .inr rfl
  | some n =>
    have hunits : s.cache.units ≠ uint32Max := by
      have h1 := h.units
      have h2 := liveIrqs_le s
      dsimp only [kernelIrqEndpointMax, uint32Max] at h2 ⊢
      omega
    obtain ⟨hlt, hfree⟩ := claimIrqSlot_spec h.hint _ 0 (by omega) hslot
    refine .inl ⟨n, if_neg hunits, hlt, ?_⟩
    by_contra h1
    simp [(h.claimed n hlt).2 h1] at hfree

theorem kernelObjectCacheRelease_withSlot (c : IrqCache) (hc : c.corrupt = false) (n : ℕ) :
    ∃ hint, kernelObjectCacheRelease (c.withSlot n) n = (.ok, { c with
      claimed := update c.claimed n false
      nextHint := hint }) ∧ (n < kernelIrqEndpointMax → hint < kernelIrqEndpointMax) := by
  unfold kernelObjectCacheRelease
  rw [if_neg (by simp [IrqCache.withSlot, hc]), if_neg (by simp [IrqCache.withSlot])]
  refine ⟨if n < (c.withSlot n).nextHint then n else (c.withSlot n).nextHint,
    by simp [IrqCache.withSlot], fun hn => ?_⟩
  split_ifs <;> omega

theorem IrqSound.unrouted (h : IrqSound s) (hfree : (s.endpoint n).state = .free) (x : ℕ) :
    (s.route x).endpoint ≠ some n :=
  fun h1 => ((h.routed x n).1 h1).1 hfree

structure Binds (s s' : IrqState) (n : ℕ) (e : KernelIrqEndpoint) (works : Prop) : Prop where
  slot : n < kernelIrqEndpointMax
  free : (s.endpoint n).state = .free
  endpoint : s'.endpoint = update s.endpoint n e
  state : e.state = .masked
  fits : EndpointFits e
  well : MaskedWell e
  source : e.source < kernelIrqSourceCount
  vacant : (s.route e.source).endpoint = none
  healthy : Healthy s'.pool
  waits : ∀ t q, Waits s'.pool t q → Waits s.pool t q
  route : ∀ x, x ≠ e.source → s'.route x = s.route x
  routed : (s'.route e.source).endpoint = some n
  cache : s'.cache = s.cache.withSlot n
  live : s'.liveEndpoints = s.liveEndpoints + 1
  revoking : s'.revokingEndpoints = s.revokingEndpoints
  enabled : ∀ x, x ≠ e.source → s'.enabled x = s.enabled x
  masked : works → s'.enabled e.source = false

theorem Binds.quiet {e : KernelIrqEndpoint} (hc : Binds s s' n e works) (h : IrqSound s) :
    IrqQuiet s s' works := by
  have he : s'.endpoint n = e := by rw [hc.endpoint, update_self]
  have hother : ∀ m, m ≠ n → s'.endpoint m = s.endpoint m := fun m hm => by
    rw [hc.endpoint, update_of_ne hm]
  have hfree' : e.state ≠ .free := by simp [hc.state]
  have hactive : ¬ irqActiveState (s.endpoint n).state := by simp [hc.free, irqActiveState]
  have hempty : ∀ t, ¬ Waits s'.pool t (irqWaiters n) := fun t ht =>
    h.not_waits hc.slot hactive t (hc.waits t _ ht)
  have hrouted : ∀ x, RoutedFrom (s'.endpoint n) x ↔ x = e.source := fun x => by
    rw [he]
    exact ⟨fun h1 => h1.2.2.symm, fun h1 => ⟨hfree', hc.fits.quiesced, h1.symm⟩⟩
  refine ⟨h.change ⟨hc.slot, hc.healthy, hother, fun m _ _ t ht => hc.waits t _ ht,
    fun t ht => absurd ht (hempty t), fun _ => by rw [he]; exact hc.source,
    fun _ => by rw [he]; exact hc.fits, fun x => ?_, fun x m h1 h2 => ?_, fun m _ => ?_, ?_, ?_, ?_,
    ?_, ?_, ?_⟩, fun hw => hw.change hother hc.waits hempty, fun hworks ht =>
      ht.update e.source (fun m hm => ?_) hc.route hc.enabled
        (fun x m _ hm => hother m fun hmn => ?_) fun _ => ?_⟩
  · by_cases hx : x = e.source
    · subst hx
      rw [if_pos ((hrouted _).2 rfl), hc.routed]
    · rw [if_neg (mt (hrouted x).1 hx), if_neg (h.unrouted hc.free x), hc.route x hx]
  · rw [(hrouted x).1 h1, hc.vacant] at h2
    simp at h2
  · rw [hc.cache, he]
    simp [IrqCache.withSlot, update_apply, hfree']
  · rw [hc.cache]
    exact h.cacheSane
  · rw [hc.cache]
    have h1 := hc.slot
    dsimp only [IrqCache.withSlot, kernelIrqEndpointMax] at *
    split_ifs <;> omega
  · simp [hc.cache, he, hc.free, hfree', IrqCache.withSlot]
  · simp [hc.cache, he, hc.free, hfree', IrqCache.withSlot]
  · simp [hc.live, he, hc.free, hfree']
  · simp [hc.revoking, he, hc.free, hc.state]
  · rcases eq_or_ne m n with rfl | hne
    · rw [he]
      exact hc.well
    · rw [hother m hne] at hm ⊢
      exact ht.well m hm
  · exact h.unrouted hc.free x (hmn ▸ hm)
  · rw [hc.masked hworks]
    unfold Deliverable
    rw [hc.routed]
    simp [he, hc.well.state hc.state]

theorem bindSlot_quiet (h : IrqSound s) {owner : ℕ} {binding : KernelIrqBinding}
    (hn : n < kernelIrqEndpointMax) (hfree : (s.endpoint n).state = .free) (howner : owner ≠ 0)
    (hsource : binding.source < kernelIrqSourceCount) (hipl : binding.ipl ≠ 0 ∧ binding.ipl ≤ 7)
    (hvector : binding.vector = kernelIrqCommonVector) (hroute : ¬ routeInUse s binding.source)
    (a : IrqAnswers) :
    IrqQuiet s (bindSlot { s with cache := s.cache.withSlot n } n owner binding a).2.1 a.Works := by
  have hactive : ¬ irqActiveState (s.endpoint n).state := by simp [hfree, irqActiveState]
  have hnone := h.not_waits hn hactive
  obtain ⟨hint, hrelease, hhint⟩ := kernelObjectCacheRelease_withSlot s.cache h.cacheSane n
  unfold bindSlot
  rw [if_neg (not_not.2 hfree)]
  dsimp only
  split
  · rename_i hfail
    have hcache : ∀ s₁ : IrqState, s₁.cache = s.cache.withSlot n →
        kernelObjectCacheRelease s₁.cache n = (.ok, { s.cache with
          claimed := update s.cache.claimed n false
          nextHint := hint }) := fun s₁ h1 => by
      rw [h1, hrelease]
    rw [hcache _ rfl]
    refine ToFree.quiet ⟨hn, hactive, h.unrouted hfree, fun m hm => ?_, ?_, ?_, fun _ _ ht => ht, rfl,
      fun m => ?_, h.cacheSane, hhint hn, ?_, ?_, ?_, ?_, fun hworks => ?_⟩ h
    · exact (update_of_ne hm _ _).trans (update_of_ne hm _ _)
    · show ((IrqState.setEndpoint _ n fun _ => freeIrqEndpoint _).endpoint n).state = _
      rw [setEndpoint_endpoint]
      rfl
    · refine Healthy.initQueue (s := IrqState.setEndpoint _ n _) ?_ hnone
      exact Healthy.initQueue (s := IrqState.setEndpoint _ n _) h.healthy hnone
    · show update s.cache.claimed n false m = _
      rw [update_apply]
    · rw [if_neg (not_not.2 hfree)]
      rfl
    · rw [if_neg (not_not.2 hfree)]
      rfl
    · rw [if_neg (not_not.2 hfree)]
      rfl
    · rw [if_neg (show ¬ (s.endpoint n).state = .revoking by simp [hfree])]
      rfl
    · rcases hfail with h1 | h1
      · simp [hworks.configure] at h1
      · simp [hworks.mask] at h1
  · rename_i hfail
    unfold routeInUse at hroute
    push Not at hroute hfail
    refine Binds.quiet (e := newIrqEndpoint (kernelGenerationNext (s.endpoint n).generation) owner
      binding) ⟨hn, hfree, rfl, rfl, ⟨howner, (kernelGenerationNext_pos _).1.ne', one_ne_zero, hipl,
        hvector, Nat.zero_lt_succ _, Nat.zero_lt_succ _, Nat.zero_le _, one_ne_zero, rfl⟩,
        ⟨fun _ => rfl, fun _ => rfl, fun _ => rfl⟩, hsource, hroute.1, ?_, fun _ _ ht => ht,
        fun x hx => update_of_ne hx _ _, ?_, rfl, rfl, rfl, fun x hx => ?_, fun hworks => ?_⟩ h
    · exact Healthy.initQueue (s := IrqState.setEndpoint _ n _) h.healthy hnone
    · show (update s.route binding.source _ binding.source).endpoint = _
      rw [update_self]
    · show (if a.mask = true then update s.enabled binding.source false else s.enabled) x = _
      split_ifs
      · exact update_of_ne hx _ _
      · rfl
    · show (if a.mask = true then update s.enabled binding.source false else s.enabled)
        binding.source = _
      rw [if_pos hworks.mask, update_self]

theorem kernelIrqBind_quiet (h : IrqSound s) (owner : ℕ) (binding : KernelIrqBinding)
    (attempt : Bool) (a : IrqAnswers) :
    IrqQuiet s (kernelIrqBind s owner binding attempt a).2.1 a.Works := by
  unfold kernelIrqBind
  split_ifs with hgate hcorrupt hroute
  · exact .refl h _
  · exact .refl h _
  · exact .refl h _
  push Not at hgate
  obtain ⟨howner, hsource, hipl, hipl', hvector⟩ := hgate
  rcases kernelObjectCacheClaim_spec h attempt with ⟨n, he, hn, hfree⟩ | he
  · rw [he]
    exact bindSlot_quiet h hn hfree howner hsource ⟨hipl, hipl'⟩ hvector hroute a
  · rw [he]
    exact .refl h _

end

end Astra
