import AstraKernel.Proofs.IrqCalls

/-!
# A dispatch to an active endpoint

Branch by branch: which dispatches leave an event without waking, and which leave the source masked
by its claim.
-/

namespace Astra

open Function

/-- The source of an armed endpoint as its dispatch has it when it asks the device: masked when it is
level-triggered. -/
structure DispatchEntered (s s₁ : IrqState) (n source : ℕ) (sourceClaimed : Bool)
    (a : IrqAnswers) : Prop where
  soft : IrqSoft s s₁ n
  bound : (s.endpoint n).source = source
  pool : s₁.pool = s.pool
  armed : (s.endpoint n).flags.masked = false
  endpoint : s₁.endpoint n = { s.endpoint n with
    flags := { (s.endpoint n).flags with masked := decide ((s.endpoint n).trigger = .level) } }
  enabled : a.Works → s.enabled source = !sourceClaimed →
    s₁.enabled source = (decide ((s.endpoint n).trigger = .edge) && !sourceClaimed)

structure DispatchBefore (s : IrqState) (n source : ℕ) (sourceClaimed : Bool) (a : IrqAnswers) :
    Prop where
  works : a.Works
  well : MaskedWell (s.endpoint n)
  enabled : s.enabled source = (!(s.endpoint n).flags.masked && !sourceClaimed)

section

variable {s s' s₁ : IrqState} {n source vector : ℕ} {timestamp : BitVec 64} {sourceClaimed : Bool}
  {a : IrqAnswers} {e : KernelIrqEndpoint}

theorem noteStormDelivery_eq (e : KernelIrqEndpoint) (timestamp : BitVec 64) :
    ∃ high low consecutive, noteStormDelivery e timestamp = { e with
      stormWindowHigh := high
      stormWindowLow := low
      consecutive := consecutive } := by
  unfold noteStormDelivery
  dsimp only
  split_ifs
  · exact ⟨_, _, _, rfl⟩
  · exact ⟨_, _, _, rfl⟩
  · exact ⟨_, _, _, rfl⟩

@[simp] theorem noteStormDelivery_flags : (noteStormDelivery e timestamp).flags = e.flags := by
  obtain ⟨_, _, _, he⟩ := noteStormDelivery_eq e timestamp
  rw [he]

@[simp] theorem noteStormDelivery_state : (noteStormDelivery e timestamp).state = e.state := by
  obtain ⟨_, _, _, he⟩ := noteStormDelivery_eq e timestamp
  rw [he]

@[simp] theorem noteStormDelivery_recordCount :
    (noteStormDelivery e timestamp).recordCount = e.recordCount := by
  obtain ⟨_, _, _, he⟩ := noteStormDelivery_eq e timestamp
  rw [he]

@[simp] theorem noteStormDelivery_trigger :
    (noteStormDelivery e timestamp).trigger = e.trigger := by
  obtain ⟨_, _, _, he⟩ := noteStormDelivery_eq e timestamp
  rw [he]

@[simp] theorem noteStormDelivery_source : (noteStormDelivery e timestamp).source = e.source := by
  obtain ⟨_, _, _, he⟩ := noteStormDelivery_eq e timestamp
  rw [he]

theorem noteStormDelivery_fits (h : EndpointFits e) :
    EndpointFits (noteStormDelivery e timestamp) := by
  obtain ⟨_, _, _, he⟩ := noteStormDelivery_eq e timestamp
  rw [he]
  exact { h with }

theorem SameBinding.noteStorm (e : KernelIrqEndpoint) (timestamp : BitVec 64) :
    SameBinding e (noteStormDelivery e timestamp) :=
  ⟨fun ha => by rwa [noteStormDelivery_state], fun _ hf => noteStormDelivery_fits hf,
    noteStormDelivery_source, noteStormDelivery_trigger⟩

theorem queued_fits (h : EndpointFits e) (hc : e.recordCount ≠ kernelIrqRecordDepth)
    (status : BitVec 32) : EndpointFits (e.queued timestamp status) :=
  { h with
    tail := Nat.mod_lt _ (by decide)
    recordCount := Nat.lt_of_le_of_ne h.recordCount hc
    nextSequence := (kernelGenerationNext_pos _).1.ne' }

theorem trigger_edge_iff {trigger : KernelIrqTrigger} : trigger = .edge ↔ ¬ trigger = .level := by
  cases trigger <;> simp

theorem sticky_outcome (hs : IrqSoft s s₁ n) (hp : s₁.pool = s.pool) {silent before forgets : Prop}
    {f : KernelIrqFlags → KernelIrqFlags}
    (hf : (f (s₁.endpoint n).flags).quiesced = (s₁.endpoint n).flags.quiesced)
    (hsticky : (f (s₁.endpoint n).flags).sticky = true)
    (hmasked : (f (s₁.endpoint n).flags).masked = true) {source : ℕ}
    (hsource : (s.endpoint n).source = source) {b : Bool} (hb : before → b = true)
    (hsilent : silent) (hforgets : before → ¬ forgets) :
    IrqOutcome s ((s₁.setEndpoint n fun e => { e with
        flags := f e.flags
        state := .pending }).controllerMask b source) n silent before forgets := by
  have hset : IrqSoft s₁ (s₁.setEndpoint n fun e => { e with
      flags := f e.flags
      state := .pending }) n :=
    .setEndpoint ⟨fun _ => trivial, fun _ h => { h with quiesced := hf.trans h.quiesced }, rfl, rfl⟩
  have hsource' := (hs.trans hset).binding.source.trans hsource
  refine ⟨(hs.trans hset).trans (.controllerMask hsource' b), quiet_of_sticky hsilent hp ?_,
    fun h => ?_, fun h => ?_⟩
  · simpa using hsticky
  · simp only [controllerMask_endpoint, setEndpoint_endpoint]
    exact ⟨fun _ => hmasked, fun _ => hmasked, fun h1 => by simp at h1⟩
  · rw [hsource, hb h]
    simpa [hmasked] using hforgets h

theorem dispatchEmpty_outcome (h : DispatchEntered s s₁ n source sourceClaimed a)
    (hvector : vector = (s.endpoint n).vector) (hstate : (s.endpoint n).state ≠ .masked)
    (hmask : ¬ ((s.endpoint n).trigger = .level ∧ sourceClaimed = false ∧ a.mask = false))
    (hempty : Workless s source a) :
    IrqOutcome s (dispatchEmpty s₁ n source timestamp a).2 n
      (SilentDispatch s n source vector timestamp sourceClaimed a)
      (DispatchBefore s n source sourceClaimed a)
      (ForgetfulDispatch s n source vector timestamp sourceClaimed a) := by
  have htrigger : (s₁.endpoint n).trigger = (s.endpoint n).trigger := h.soft.binding.trigger
  have hsource₁ : (s₁.endpoint n).source = source := h.soft.binding.source.trans h.bound
  unfold dispatchEmpty
  dsimp only
  rw [htrigger]
  -- the mask of a level-triggered source comes off again
  generalize hs₂ : (if (s.endpoint n).trigger = .level then
      (s₁.setFlags n fun f => { f with masked := false }).controllerEnable a.enable source
    else s₁) = s₂
  have hsoft : IrqSoft s₁ s₂ n := by
    rw [← hs₂]
    split_ifs
    · exact (IrqSoft.setFlags rfl).trans (.controllerEnable (by rwa [setFlags_endpoint]) _)
    · exact .refl s₁ n
  have hpool : s₂.pool = s.pool := by
    rw [← h.pool, ← hs₂]
    split_ifs <;> rfl
  have he : s₂.endpoint n = s.endpoint n := by
    have harmed := h.armed
    rw [← hs₂]
    split
    · rw [controllerEnable_endpoint, setFlags_endpoint, h.endpoint]
      generalize s.endpoint n = e at harmed
      obtain ⟨⟩ := e
      simp only at harmed ⊢
      rw [← harmed]
    · rename_i hlevel
      rw [h.endpoint]
      generalize s.endpoint n = e at harmed hlevel
      obtain ⟨⟩ := e
      simp only at harmed hlevel ⊢
      rw [decide_eq_false hlevel, ← harmed]
  have henabled : DispatchBefore s n source sourceClaimed a →
      s₂.enabled source = (decide ((s.endpoint n).trigger = .level) || !sourceClaimed) := by
    intro hb
    have h1 := h.enabled hb.works (by simpa [h.armed] using hb.enabled)
    rw [← hs₂]
    by_cases hlevel : (s.endpoint n).trigger = .level
    · simp [hlevel, hb.works.enable]
    · simp [h1, trigger_edge_iff.2 hlevel]
  split
  · rename_i hfail
    refine sticky_outcome (f := fun f => { f with deviceError := true, masked := true })
      (h.soft.trans hsoft) hpool rfl (by simp [KernelIrqFlags.sticky]) rfl h.bound
      (fun hb => hb.works.maskAgain)
      (.inr ⟨hstate, h.armed, .inr (.inl ⟨hempty, hfail.imp_right .inl⟩)⟩) fun hb => ?_
    rcases hfail with h1 | h1
    · simp [hb.works.acknowledge] at h1
    · simp [hb.works.enable] at h1
  rename_i hfail
  have hnote : IrqSoft s₂ (s₂.setEndpoint n fun e => noteStormDelivery e timestamp) n :=
    .setEndpoint (.noteStorm _ _)
  have hsoft' := (h.soft.trans hsoft).trans hnote
  rw [setEndpoint_endpoint, he]
  split
  · rename_i hstorm
    refine ⟨(hsoft'.trans (.setFlags rfl)).trans (.controllerMask ?_ _), quiet_of_sticky
      (.inr ⟨hstate, h.armed, .inr (.inl ⟨hempty, .inr (.inr hstorm)⟩)⟩) hpool ?_, fun hb => ?_,
      fun hb => ?_⟩
    · simp [he, h.bound]
    · simp [KernelIrqFlags.sticky]
    · simp only [controllerMask_endpoint, setFlags_endpoint]
      exact ⟨fun _ => rfl, fun _ => rfl, fun _ => rfl⟩
    · rw [h.bound, hb.works.maskAgain]
      simpa using fun hf : ForgetfulDispatch _ _ _ _ _ _ _ => hf.2.2.2.2.2.not_ge hstorm
  · rename_i hstorm
    have hsame : (s₂.setEndpoint n fun e => noteStormDelivery e timestamp).endpoint n
        = noteStormDelivery (s.endpoint n) timestamp := by
      rw [setEndpoint_endpoint, he]
    refine ⟨hsoft', quiet_of_woken ?_ fun hi t ht => ?_, fun hb => ?_, fun hb => ?_⟩
    · rintro (h1 | ⟨-, -, h1 | ⟨-, h1 | h1 | h1⟩ | h1⟩)
      · exact h1 hvector
      · exact hmask h1
      · exact hfail (.inl h1)
      · exact hfail (.inr h1)
      · exact hstorm h1
      · exact h1.1 hempty
    · have ht' : Waits s.pool t (irqWaiters n) := by rwa [setEndpoint_pool, hpool] at ht
      rw [hsame]
      exact ⟨by simpa using (hi t ht').active, by simpa using (hi t ht').empty,
        by simpa using (hi t ht').calm⟩
    · rw [hsame]
      exact ⟨by simpa using hb.well.sticky, by simpa using hb.well.admin, by simpa using hb.well.state⟩
    · rw [hsame, h.bound, setEndpoint_enabled, henabled hb, noteStormDelivery_flags, h.armed]
      unfold ForgetfulDispatch
      simp only [hvector, h.armed, hempty, Nat.lt_of_not_ge hstorm, trigger_edge_iff, true_and,
        and_true]
      cases sourceClaimed <;> simp

theorem not_silent_of_work (timestamp : BitVec 64) (hvector : vector = (s.endpoint n).vector)
    (hmask : ¬ ((s.endpoint n).trigger = .level ∧ sourceClaimed = false ∧ a.mask = false))
    (hwork : ¬ Workless s source a)
    (hack : ¬ (¬ (s.endpoint n).trigger = .level ∧ a.acknowledge = false)) :
    ¬ SilentDispatch s n source vector timestamp sourceClaimed a := by
  rintro (h1 | ⟨-, -, h1 | h1 | h1⟩)
  · exact h1 hvector
  · exact hmask h1
  · exact hwork h1.1
  · exact hack ⟨trigger_edge_iff.1 h1.2.1, h1.2.2⟩

theorem dispatchRecord_outcome (h : DispatchEntered s s₁ n source sourceClaimed a)
    (hp : Healthy s.pool)
    (hvector : vector = (s.endpoint n).vector)
    (hmask : ¬ ((s.endpoint n).trigger = .level ∧ sourceClaimed = false ∧ a.mask = false))
    (hwork : ¬ Workless s source a)
    (hack : ¬ (¬ (s.endpoint n).trigger = .level ∧ a.acknowledge = false))
    (hroom : (s.endpoint n).recordCount ≠ kernelIrqRecordDepth) (status : BitVec 32) :
    IrqOutcome s (dispatchRecord s₁ n source timestamp status sourceClaimed a).2.1 n
      (SilentDispatch s n source vector timestamp sourceClaimed a)
      (DispatchBefore s n source sourceClaimed a)
      (ForgetfulDispatch s n source vector timestamp sourceClaimed a) := by
  have hsilent := not_silent_of_work timestamp hvector hmask hwork hack
  have hforgets : ¬ ForgetfulDispatch s n source vector timestamp sourceClaimed a :=
    fun hf => hwork hf.2.2.2.2.1
  have hsource₁ : (s₁.endpoint n).source = source := h.soft.binding.source.trans h.bound
  have hcount₁ : (s₁.endpoint n).recordCount ≠ kernelIrqRecordDepth := by rwa [h.endpoint]
  unfold dispatchRecord
  dsimp only
  have hqueue : IrqSoft s₁ (s₁.setEndpoint n fun e =>
      { noteStormDelivery (e.queued timestamp status) timestamp with state := .pending }) n :=
    .setEndpoint ⟨fun _ => trivial, fun _ hf =>
      { noteStormDelivery_fits (queued_fits hf hcount₁ status) with }, by simp; rfl, by simp; rfl⟩
  generalize hs₂ : (s₁.setEndpoint n fun e =>
      { noteStormDelivery (e.queued timestamp status) timestamp with state := .pending }) = s₂
    at hqueue ⊢
  have hflags₂ : (s₂.endpoint n).flags = { (s.endpoint n).flags with
      masked := decide ((s.endpoint n).trigger = .level) } := by
    rw [← hs₂, setEndpoint_endpoint]
    simp [KernelIrqEndpoint.queued, h.endpoint]
  have hstate₂ : (s₂.endpoint n).state = .pending := by rw [← hs₂, setEndpoint_endpoint]
  have henabled₂ : s₂.enabled = s₁.enabled := by rw [← hs₂]; rfl
  have hpool₂ : s₂.pool = s.pool := by rw [← h.pool, ← hs₂]; rfl
  have htrigger₂ : (s₂.endpoint n).trigger = (s.endpoint n).trigger :=
    hqueue.binding.trigger.trans h.soft.binding.trigger
  have hsource₂ : (s₂.endpoint n).source = source := hqueue.binding.source.trans hsource₁
  have hsoft₂ := h.soft.trans hqueue
  -- the record is queued: a storm masks the source
  generalize hs₃ : (if kernelIrqStormBudget ≤ (s₂.endpoint n).consecutive then
      (s₂.setFlags n fun f => { f with storm := true, masked := true }).controllerMask a.maskAgain
        source
    else s₂) = s₃
  have hsoft₃ : IrqSoft s₂ s₃ n := by
    rw [← hs₃]
    split_ifs
    · exact (IrqSoft.setFlags rfl).trans (.controllerMask (by rwa [setFlags_endpoint]) _)
    · exact .refl s₂ n
  have hpool₃ : s₃.pool = s.pool := by
    rw [← hpool₂, ← hs₃]
    split_ifs <;> rfl
  have hstate₃ : (s₃.endpoint n).state = .pending := by
    rw [← hs₃]
    split_ifs <;> simp [hstate₂]
  have hsettled : DispatchBefore s n source sourceClaimed a → MaskedWell (s₃.endpoint n) ∧
      ((s₃.endpoint n).flags.storm = true ∧ (s₃.endpoint n).flags.masked = true ∧
          s₃.enabled source = false ∨
        (s₃.endpoint n).flags.storm = false ∧
          (s₃.endpoint n).flags.masked = decide ((s.endpoint n).trigger = .level) ∧
          s₃.enabled source = (decide ((s.endpoint n).trigger = .edge) && !sourceClaimed)) := by
    intro hb
    have hcalm : (s.endpoint n).flags.sticky = false := by
      have h1 := mt hb.well.sticky
      simpa [h.armed] using h1
    have hadmin : (s.endpoint n).flags.adminMasked = false := by
      have h1 := mt hb.well.admin
      simpa [h.armed] using h1
    rw [← hs₃]
    by_cases hstorm : kernelIrqStormBudget ≤ (s₂.endpoint n).consecutive
    · simp only [if_pos hstorm, controllerMask_endpoint, setFlags_endpoint, hb.works.maskAgain,
        controllerMask_enabled]
      exact ⟨⟨fun _ => rfl, fun _ => rfl, fun h1 => by simp [hstate₂] at h1⟩, .inl ⟨trivial, trivial, trivial⟩⟩
    · simp only [if_neg hstorm, hflags₂, henabled₂]
      refine ⟨⟨fun h1 => ?_, fun h1 => ?_, fun h1 => by simp [hstate₂] at h1⟩, .inr ⟨?_, trivial,
        h.enabled hb.works (by simpa [h.armed] using hb.enabled)⟩⟩
      · rw [hflags₂] at h1
        exact absurd (show (s.endpoint n).flags.sticky = true from h1) (by simp [hcalm])
      · rw [hflags₂] at h1
        exact absurd (show (s.endpoint n).flags.adminMasked = true from h1) (by simp [hadmin])
      · simp only [KernelIrqFlags.sticky, Bool.or_eq_false_iff] at hcalm
        exact hcalm.1.2
  obtain ⟨p, woken, hwake, hw⟩ := wakeWaiters_spec (s := s₃) (by rwa [hpool₃]) n astraSyscallOk
  rw [hwake]
  dsimp only
  have hsoft : IrqSoft s (s₃.withPool p) n :=
    (hsoft₂.trans hsoft₃).trans (.withPool hw.healthy hw.waits)
  have htrigger : ((s₃.withPool p).endpoint n).trigger = (s.endpoint n).trigger :=
    hsoft.binding.trigger
  have hsource : ((s₃.withPool p).endpoint n).source = source :=
    hsoft.binding.source.trans h.bound
  rw [htrigger]
  split
  · rename_i hfail
    dsimp only
    exact ⟨hsoft.trans (.setEndpoint ⟨fun _ => trivial, fun _ hf => { hf with }, rfl, rfl⟩),
      quiet_of_woken hsilent fun _ t ht => absurd ht (hw.empty t),
      fun hb => by simp [hb.works.enable] at hfail, fun hb => by simp [hb.works.enable] at hfail⟩
  dsimp only
  have hquiet : ∀ s' : IrqState, s'.pool = p → ∀ t, Waits s'.pool t (irqWaiters n) →
      IrqIdle (s'.endpoint n) := by
    rintro s' rfl t ht
    exact absurd ht (hw.empty t)
  split
  · rename_i henable
    refine ⟨hsoft.trans (.controllerEnable hsource _), quiet_of_woken hsilent fun _ => hquiet _ rfl,
      fun hb => (hsettled hb).1, fun hb => ?_⟩
    rw [h.bound, hb.works.enable, controllerEnable_enabled, controllerEnable_endpoint, henable.2.2.2]
    exact iff_of_true rfl hforgets
  · rename_i henable
    refine ⟨hsoft, quiet_of_woken hsilent fun _ => hquiet _ rfl, fun hb => (hsettled hb).1,
      fun hb => iff_of_true ?_ hforgets⟩
    rw [h.bound]
    change s₃.enabled source = !(s₃.endpoint n).flags.masked
    change ¬ (_ ∧ _ ∧ (s₃.endpoint n).flags.storm = false ∧ (s₃.endpoint n).flags.masked = false)
      at henable
    rcases (hsettled hb).2 with ⟨-, h1, h2⟩ | ⟨h1, h2, h3⟩
    · simp [h1, h2]
    · rw [h2, h3]
      rw [h1, h2] at henable
      cases htr : (s.endpoint n).trigger
      · simp
      · cases sourceClaimed
        · simp
        · simp [htr] at henable

theorem dispatchOverflow_outcome (h : DispatchEntered s s₁ n source sourceClaimed a)
    (hp : Healthy s.pool)
    (hvector : vector = (s.endpoint n).vector)
    (hmask : ¬ ((s.endpoint n).trigger = .level ∧ sourceClaimed = false ∧ a.mask = false))
    (hwork : ¬ Workless s source a)
    (hack : ¬ (¬ (s.endpoint n).trigger = .level ∧ a.acknowledge = false)) :
    IrqOutcome s (dispatchOverflow s₁ n source a).2.1 n
      (SilentDispatch s n source vector timestamp sourceClaimed a)
      (DispatchBefore s n source sourceClaimed a)
      (ForgetfulDispatch s n source vector timestamp sourceClaimed a) := by
  have hsilent := not_silent_of_work timestamp hvector hmask hwork hack
  unfold dispatchOverflow
  dsimp only
  have hset : IrqSoft s₁ (s₁.setEndpoint n fun e => { e with
      dropped := astraU32IncrementSaturating e.dropped
      flags := { e.flags with overflow := true, masked := true }
      state := .pending }) n :=
    .setEndpoint ⟨fun _ => trivial, fun _ hf => { hf with }, rfl, rfl⟩
  have hsoft := (h.soft.trans hset).trans (.controllerMask
    (hset.binding.source.trans (h.soft.binding.source.trans h.bound)) a.maskAgain)
  obtain ⟨p, woken, hwake, hw⟩ := wakeWaiters_spec (s := (s₁.setEndpoint n fun e => { e with
      dropped := astraU32IncrementSaturating e.dropped
      flags := { e.flags with overflow := true, masked := true }
      state := .pending }).controllerMask a.maskAgain source) (by simpa [h.pool]) n astraSyscallOk
  rw [hwake]
  refine ⟨hsoft.trans (.withPool hw.healthy hw.waits), quiet_of_woken hsilent fun _ t ht =>
    absurd ht (hw.empty t), fun hb => ?_, fun hb => iff_of_true ?_ fun hf => hwork hf.2.2.2.2.1⟩
  · simp only [withPool_endpoint, controllerMask_endpoint, setEndpoint_endpoint]
    exact ⟨fun _ => rfl, fun _ => rfl, fun h1 => by simp at h1⟩
  · rw [h.bound, hb.works.maskAgain]
    simp [IrqState.withPool]

theorem dispatchArmed_outcome (h : IrqSound s)
    (hsource : (s.endpoint n).source = source) (hvector : vector = (s.endpoint n).vector)
    (hstate : (s.endpoint n).state ≠ .masked) (harmed : (s.endpoint n).flags.masked = false) :
    IrqOutcome s (dispatchArmed s n source timestamp sourceClaimed a).2.1 n
      (SilentDispatch s n source vector timestamp sourceClaimed a)
      (DispatchBefore s n source sourceClaimed a)
      (ForgetfulDispatch s n source vector timestamp sourceClaimed a) := by
  unfold dispatchArmed
  dsimp only
  split
  · rename_i hmask
    dsimp only
    exact ⟨.setFlags rfl, quiet_of_sticky (.inr ⟨hstate, harmed, .inl hmask⟩) rfl
      (by simp [KernelIrqFlags.sticky]), fun hb => by simp [hb.works.mask] at hmask,
      fun hb => by simp [hb.works.mask] at hmask⟩
  rename_i hmask
  generalize hs₁ : (if (s.endpoint n).trigger = .level then
      (if sourceClaimed = true then s else s.controllerMask a.mask source).setFlags n fun f =>
        { f with masked := true }
    else s) = s₁
  have hentered : DispatchEntered s s₁ n source sourceClaimed a := by
    rw [← hs₁]
    split
    · rename_i hlevel
      cases sourceClaimed with
      | true =>
        refine ⟨.setFlags rfl, hsource, rfl, harmed, ?_, fun _ he => ?_⟩
        · simp [hlevel]
        · simpa [hlevel] using he
      | false =>
        refine ⟨(IrqSoft.controllerMask hsource _).trans (.setFlags rfl), hsource, rfl, harmed, ?_,
          fun hw _ => ?_⟩
        · simp [hlevel]
        · simp [hlevel, hw.mask]
    · rename_i hlevel
      refine ⟨.refl s n, hsource, rfl, harmed, ?_, fun _ he => ?_⟩
      · generalize s.endpoint n = e at harmed hlevel
        obtain ⟨⟩ := e
        simp only at harmed hlevel ⊢
        rw [decide_eq_false hlevel, ← harmed]
      · simpa [trigger_edge_iff.2 hlevel] using he
  have hcount : (s₁.endpoint n).recordCount = (s.endpoint n).recordCount := by
    rw [hentered.endpoint]
  have hroute : (s₁.route source).capture = (s.route source).capture := by
    rw [hentered.soft.route]
  rw [hroute]
  split
  case h_1 hcapture hnone =>
    exact dispatchEmpty_outcome hentered hvector hstate hmask ⟨hcapture, hnone⟩
  case h_2 hne =>
    have hwork : ¬ Workless s source a := fun hw => hne hw.1 hw.2
    split
    · rename_i hack
      exact sticky_outcome (f := fun f => { f with deviceError := true, masked := true })
        hentered.soft hentered.pool rfl (by simp [KernelIrqFlags.sticky]) rfl hsource
        (fun hb => hb.works.maskAgain)
        (.inr ⟨hstate, harmed, .inr (.inr ⟨hwork, trigger_edge_iff.2 hack.1, hack.2⟩)⟩)
        fun _ hf => hwork hf.2.2.2.2.1
    rename_i hack
    rw [hcount]
    split
    · exact dispatchOverflow_outcome hentered h.healthy hvector hmask hwork hack
    · rename_i hfull
      exact dispatchRecord_outcome hentered h.healthy hvector hmask hwork hack hfull _

theorem dispatchEndpoint_outcome (h : IrqSound s) (ha : irqActiveState (s.endpoint n).state)
    (hsource : (s.endpoint n).source = source) :
    IrqOutcome s (dispatchEndpoint s n source vector timestamp sourceClaimed a).2.1 n
      (SilentDispatch s n source vector timestamp sourceClaimed a)
      (DispatchBefore s n source sourceClaimed a)
      (ForgetfulDispatch s n source vector timestamp sourceClaimed a) := by
  unfold dispatchEndpoint
  rw [if_neg (not_not.2 (h.valid_iff.2 ha))]
  split
  · rename_i hvector
    exact sticky_outcome (f := fun f => { f with deviceError := true, masked := true })
      (.refl s n) rfl rfl (by simp [KernelIrqFlags.sticky]) rfl hsource (fun hb => hb.works.mask)
      (.inl hvector) fun _ hf => hvector hf.2.1
  rename_i hvector
  rw [not_not] at hvector
  split
  · rename_i hmasked
    have hflag : DispatchBefore s n source sourceClaimed a → (s.endpoint n).flags.masked = true :=
      fun hb => hmasked.elim hb.well.state id
    refine ⟨.controllerMask rfl _, quiet_of_woken ?_ fun hi => hi, fun hb => hb.well,
      fun hb => iff_of_true ?_ fun hf => by simp [hf.2.2.1] at hflag; exact hflag hb⟩
    · rintro (h1 | ⟨h1, h2, -⟩)
      · exact h1 hvector
      · exact hmasked.elim h1 fun h3 => by simp [h2] at h3
    · simp [quarantineMasked, hb.works.mask, hflag hb]
  · rename_i hmasked
    push Not at hmasked
    exact dispatchArmed_outcome h hsource hvector hmasked.1 (by simpa using hmasked.2)

end

end Astra
