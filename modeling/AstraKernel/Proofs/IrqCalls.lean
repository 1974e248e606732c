import AstraKernel.Proofs.IrqPool

/-!
# The calls of an active endpoint

Whoever waits on an endpoint waits for a record or a sticky event. A call that brings one wakes
them, but for some that silently set an event. With a controller that works, an endpoint that is not
flagged as masked has its source enabled; one dispatch forgets to.
-/

namespace Astra

open Function

/-- An endpoint that has nothing for those who wait on it. -/
structure IrqIdle (e : KernelIrqEndpoint) : Prop where
  active : irqActiveState e.state
  empty : e.recordCount = 0
  calm : e.flags.sticky = false

structure MaskedWell (e : KernelIrqEndpoint) : Prop where
  sticky : e.flags.sticky = true → e.flags.masked = true
  admin : e.flags.adminMasked = true → e.flags.masked = true
  state : e.state = .masked → e.flags.masked = true

/-- Every operation of the controller has worked. -/
structure IrqAnswers.Works (a : IrqAnswers) : Prop where
  configure : a.configure = true
  mask : a.mask = true
  maskAgain : a.maskAgain = true
  enable : a.enable = true
  acknowledge : a.acknowledge = true

/-- A call of the active endpoint `n`, which is `silent` when it brings an event without waking, and
`forgets` when it leaves the source masked and does not say so. -/
structure IrqOutcome (s s' : IrqState) (n : ℕ) (silent before forgets : Prop) : Prop where
  soft : IrqSoft s s' n
  quiet : (∀ t, Waits s.pool t (irqWaiters n) → IrqIdle (s.endpoint n)) →
    ((∀ t, Waits s'.pool t (irqWaiters n) → IrqIdle (s'.endpoint n))
      ↔ ¬ ((∃ t, Waits s.pool t (irqWaiters n)) ∧ silent))
  well : before → MaskedWell (s'.endpoint n)
  agrees : before → (s'.enabled (s.endpoint n).source = !(s'.endpoint n).flags.masked ↔ ¬ forgets)

structure IrqAgrees (s : IrqState) (n : ℕ) : Prop where
  well : MaskedWell (s.endpoint n)
  enabled : s.enabled (s.endpoint n).source = !(s.endpoint n).flags.masked

/-- The interrupt has no work for its endpoint. -/
def Workless (s : IrqState) (source : ℕ) (a : IrqAnswers) : Prop :=
  (s.route source).capture = true ∧ a.capture = none

instance (s : IrqState) (source : ℕ) (a : IrqAnswers) : Decidable (Workless s source a) :=
  inferInstanceAs (Decidable (_ ∧ _))

/-- The dispatches that bring an event without waking: for another vector, when the controller fails,
and the last empty interrupt of a storm. -/
def SilentDispatch (s : IrqState) (n source vector : ℕ) (timestamp : BitVec 64)
    (sourceClaimed : Bool) (a : IrqAnswers) : Prop :=
  let e := s.endpoint n
  vector ≠ e.vector ∨ e.state ≠ .masked ∧ e.flags.masked = false ∧
    (e.trigger = .level ∧ sourceClaimed = false ∧ a.mask = false
      ∨ Workless s source a ∧ (a.acknowledge = false ∨ e.trigger = .level ∧ a.enable = false
          ∨ kernelIrqStormBudget ≤ (noteStormDelivery e timestamp).consecutive)
      ∨ ¬ Workless s source a ∧ e.trigger = .edge ∧ a.acknowledge = false)

/-- The dispatches that leave a source masked by its claim: empty interrupts of an edge-triggered
endpoint, below the budget of a storm. -/
def ForgetfulDispatch (s : IrqState) (n source vector : ℕ) (timestamp : BitVec 64)
    (sourceClaimed : Bool) (a : IrqAnswers) : Prop :=
  let e := s.endpoint n
  sourceClaimed = true ∧ vector = e.vector ∧ e.flags.masked = false ∧ e.trigger = .edge
    ∧ Workless s source a ∧ (noteStormDelivery e timestamp).consecutive < kernelIrqStormBudget

section

variable {s s' s₁ : IrqState} {n source vector : ℕ} {timestamp : BitVec 64} {sourceClaimed : Bool}
  {a : IrqAnswers} {p : Pool} {silent before forgets : Prop} {e : KernelIrqEndpoint}

theorem not_idle_of_sticky (h : e.flags.sticky = true) : ¬ IrqIdle e :=
  fun hi => by simp [hi.calm] at h

theorem quiet_of_woken (hs : ¬ silent)
    (hw : (∀ t, Waits s.pool t (irqWaiters n) → IrqIdle (s.endpoint n)) →
      ∀ t, Waits s'.pool t (irqWaiters n) → IrqIdle (s'.endpoint n)) :
    (∀ t, Waits s.pool t (irqWaiters n) → IrqIdle (s.endpoint n)) →
      ((∀ t, Waits s'.pool t (irqWaiters n) → IrqIdle (s'.endpoint n))
        ↔ ¬ ((∃ t, Waits s.pool t (irqWaiters n)) ∧ silent)) :=
  fun hi => iff_of_true (hw hi) fun h => hs h.2

theorem quiet_of_sticky (hs : silent) (hp : s'.pool = s.pool)
    (he : (s'.endpoint n).flags.sticky = true) :
    (∀ t, Waits s.pool t (irqWaiters n) → IrqIdle (s.endpoint n)) →
      ((∀ t, Waits s'.pool t (irqWaiters n) → IrqIdle (s'.endpoint n))
        ↔ ¬ ((∃ t, Waits s.pool t (irqWaiters n)) ∧ silent)) := by
  intro _
  rw [hp, not_and_or, not_exists, or_iff_left (not_not.2 hs)]
  exact forall_congr' fun t => imp_congr_right fun _ => iff_false_intro (not_idle_of_sticky he)

theorem IrqOutcome.refl (hs : (∃ t, Waits s.pool t (irqWaiters n)) → IrqIdle (s.endpoint n) → ¬ silent)
    (hb : before → MaskedWell (s.endpoint n) ∧
      (s.enabled (s.endpoint n).source = !(s.endpoint n).flags.masked ↔ ¬ forgets)) :
    IrqOutcome s s n silent before forgets :=
  ⟨.refl s n, fun hi => iff_of_true hi fun ⟨⟨t, ht⟩, h⟩ => hs ⟨t, ht⟩ (hi t ht) h,
    fun h => (hb h).1, fun h => (hb h).2⟩

theorem kernelIrqArm_outcome (h : IrqSound s) (ha : irqActiveState (s.endpoint n).state)
    (a : IrqAnswers) : IrqOutcome s (kernelIrqArm s n a).2 n
      ((s.endpoint n).state = .masked ∧ a.enable = false) (a.Works ∧ IrqAgrees s n) False := by
  have hgate : ¬ (n < kernelIrqEndpointMax ∧ (s.endpoint n).state = .revoking) :=
    fun h1 => (irqActiveState_iff.1 ha).2 h1.2
  unfold kernelIrqArm
  rw [if_neg hgate, if_neg (not_not.2 (h.valid_iff.2 ha))]
  split
  · rename_i hstate
    refine .refl (fun _ hi hs => ?_) fun hb => ⟨hb.2.well, by simp [hb.2.enabled]⟩
    rcases hstate with h1 | h1 | h1
    · exact h1 hs.1
    · exact h1 hi.empty
    · exact not_idle_of_sticky h1 hi
  rename_i hstate
  push Not at hstate
  obtain ⟨hmasked, hempty, hcalm⟩ := hstate
  split
  · rename_i henable
    dsimp only
    exact ⟨.setFlags rfl, quiet_of_sticky ⟨hmasked, henable⟩ rfl (by simp [KernelIrqFlags.sticky]),
      fun hb => by simp [hb.1.enable] at henable, fun hb => by simp [hb.1.enable] at henable⟩
  · rename_i henable
    dsimp only
    have hcalm' : (s.endpoint n).flags.sticky = false := by simpa using hcalm
    have hcalm'' : KernelIrqFlags.sticky
        { (s.endpoint n).flags with masked := false, adminMasked := false } = false := hcalm'
    refine ⟨(IrqSoft.controllerEnable rfl _).trans (.setEndpoint ⟨fun _ => trivial,
      fun _ hf => { hf with }, rfl, rfl⟩), quiet_of_woken (fun h1 => henable h1.2) fun _ t _ => ?_,
      fun _ => ?_, fun hb => ?_⟩
    · simp only [setEndpoint_endpoint]
      exact ⟨trivial, hempty, hcalm''⟩
    · simp only [setEndpoint_endpoint]
      exact ⟨fun h1 => by simp [hcalm''] at h1, fun h1 => by simp at h1, fun h1 => by simp at h1⟩
    · simp [hb.1.enable]

theorem kernelIrqMask_outcome (h : IrqSound s) (ha : irqActiveState (s.endpoint n).state)
    (a : IrqAnswers) : IrqOutcome s (kernelIrqMask s n a).2 n (a.mask = false)
      (a.Works ∧ IrqAgrees s n) False := by
  have hgate : ¬ (n < kernelIrqEndpointMax ∧ (s.endpoint n).state = .revoking) :=
    fun h1 => (irqActiveState_iff.1 ha).2 h1.2
  unfold kernelIrqMask
  rw [if_neg hgate, if_neg (not_not.2 (h.valid_iff.2 ha))]
  split
  · rename_i hmask
    dsimp only
    exact ⟨.setFlags rfl, quiet_of_sticky hmask rfl (by simp [KernelIrqFlags.sticky]),
      fun hb => by simp [hb.1.mask] at hmask, fun hb => by simp [hb.1.mask] at hmask⟩
  · rename_i hmask
    dsimp only
    have hactive : irqActiveState
        (if (s.endpoint n).recordCount = 0 then KernelIrqState.masked else .pending) := by
      split_ifs <;> trivial
    refine ⟨(IrqSoft.controllerMask rfl _).trans (.setEndpoint ⟨fun _ => hactive,
      fun _ hf => { hf with }, rfl, rfl⟩), quiet_of_woken hmask fun hi t ht => ?_,
      fun _ => ?_, fun hb => ?_⟩
    · simp only [setEndpoint_endpoint]
      exact ⟨hactive, (hi t ht).empty, (hi t ht).calm⟩
    · simp only [setEndpoint_endpoint]
      exact ⟨fun _ => rfl, fun _ => rfl, fun _ => rfl⟩
    · simp [hb.1.mask]

theorem kernelIrqRecover_outcome (h : IrqSound s) (ha : irqActiveState (s.endpoint n).state)
    (a : IrqAnswers) : IrqOutcome s (kernelIrqRecover s n a).2 n (a.enable = false)
      (a.Works ∧ IrqAgrees s n) False := by
  have hgate : ¬ (n < kernelIrqEndpointMax ∧ (s.endpoint n).state = .revoking) :=
    fun h1 => (irqActiveState_iff.1 ha).2 h1.2
  unfold kernelIrqRecover
  rw [if_neg hgate, if_neg (not_not.2 (h.valid_iff.2 ha))]
  split
  · rename_i hcount
    exact .refl (fun _ hi _ => hcount hi.empty) fun hb => ⟨hb.2.well, by simp [hb.2.enabled]⟩
  rename_i hcount
  push Not at hcount
  have hclear : IrqSoft s (s.setEndpoint n fun e => { e with
      flags := { e.flags with overflow := false, storm := false, deviceError := false }
      consecutive := 0
      state := .masked }) n :=
    .setEndpoint ⟨fun _ => trivial, fun _ hf => { hf with }, rfl, rfl⟩
  generalize hs₁ : (s.setEndpoint n fun e => { e with
      flags := { e.flags with overflow := false, storm := false, deviceError := false }
      consecutive := 0
      state := .masked }) = s₁ at hclear ⊢
  have he : s₁.endpoint n = { s.endpoint n with
      flags := { (s.endpoint n).flags with overflow := false, storm := false, deviceError := false }
      consecutive := 0
      state := .masked } := by
    rw [← hs₁, setEndpoint_endpoint]
  have hgate₁ : ¬ (n < kernelIrqEndpointMax ∧ (s₁.endpoint n).state = .revoking) := by simp [he]
  have hready : ¬ ((s₁.endpoint n).state ≠ .masked ∨ (s₁.endpoint n).recordCount ≠ 0
      ∨ (s₁.endpoint n).flags.sticky = true) := by
    simp [he, hcount, KernelIrqFlags.sticky]
  have hpool : s₁.pool = s.pool := by rw [← hs₁]; rfl
  unfold kernelIrqArm
  rw [if_neg hgate₁, if_neg (not_not.2 ((h.soft ha hclear).valid_iff.2 (hclear.binding.active ha))),
    if_neg hready]
  split
  · rename_i henable
    dsimp only
    exact ⟨hclear.trans (.setFlags rfl), quiet_of_sticky henable hpool
      (by simp [KernelIrqFlags.sticky]), fun hb => by simp [hb.1.enable] at henable,
      fun hb => by simp [hb.1.enable] at henable⟩
  · rename_i henable
    dsimp only
    refine ⟨hclear.trans ((IrqSoft.controllerEnable rfl _).trans (.setEndpoint ⟨fun _ => trivial,
      fun _ hf => { hf with }, rfl, rfl⟩)), quiet_of_woken henable fun _ t _ => ?_, fun _ => ?_,
      fun hb => ?_⟩
    · simp only [setEndpoint_endpoint, controllerEnable_endpoint, he]
      exact ⟨trivial, hcount, rfl⟩
    · simp only [setEndpoint_endpoint, controllerEnable_endpoint, he]
      exact ⟨fun h1 => by simp [KernelIrqFlags.sticky] at h1, fun h1 => by simp at h1,
        fun h1 => by simp at h1⟩
    · rw [← hclear.binding.source]
      simp [hb.1.enable]

structure IrqPart (s s' : IrqState) (n : ℕ) (works : Prop) : Prop where
  soft : IrqSoft s s' n
  pool : s'.pool = s.pool
  agrees : works → IrqAgrees s n → IrqAgrees s' n

theorem IrqPart.trans {works : Prop} (h : IrqPart s s₁ n works) (h' : IrqPart s₁ s' n works) :
    IrqPart s s' n works :=
  ⟨h.soft.trans h'.soft, h'.pool.trans h.pool, fun hw ha => h'.agrees hw (h.agrees hw ha)⟩

theorem IrqPart.outcome {works : Prop} (h : IrqPart s s' n works)
    (hc : (s.endpoint n).recordCount ≠ 0) :
    IrqOutcome s s' n silent (works ∧ IrqAgrees s n) False := by
  refine ⟨h.soft, fun hi => iff_of_true (fun t ht => ?_) ?_, fun hb => (h.agrees hb.1 hb.2).well,
    fun hb => ?_⟩
  · rw [h.pool] at ht
    exact absurd (hi t ht).empty hc
  · rintro ⟨⟨t, ht⟩, -⟩
    exact hc (hi t ht).empty
  · rw [← h.soft.binding.source]
    simp [(h.agrees hb.1 hb.2).enabled]

theorem SameBinding.retired (e : KernelIrqEndpoint) : SameBinding e e.retired :=
  ⟨id, fun _ hf => { hf with
    head := Nat.mod_lt _ (by decide)
    recordCount := (Nat.sub_le _ _).trans hf.recordCount }, rfl, rfl⟩

theorem IrqPart.setEndpoint {works : Prop} {f : KernelIrqEndpoint → KernelIrqEndpoint}
    (hf : SameBinding (s.endpoint n) (f (s.endpoint n)))
    (hm : works → IrqAgrees s n →
      (f (s.endpoint n)).flags.masked = (s.endpoint n).flags.masked ∧
        MaskedWell (f (s.endpoint n))) : IrqPart s (s.setEndpoint n f) n works := by
  refine ⟨.setEndpoint hf, rfl, fun hw ha => ⟨?_, ?_⟩⟩
  · rw [setEndpoint_endpoint]
    exact (hm hw ha).2
  · rw [setEndpoint_endpoint, setEndpoint_enabled, hf.source, (hm hw ha).1]
    exact ha.enabled

theorem ackLast_part (s : IrqState) (n : ℕ) (a : IrqAnswers) :
    IrqPart s (ackLast s n a).2 n a.Works := by
  have hreset : IrqPart s (s.setEndpoint n fun e => { e with head := 0, tail := 0 }) n a.Works :=
    .setEndpoint ⟨id, fun _ hf => { hf with
      head := Nat.zero_lt_succ _
      tail := Nat.zero_lt_succ _ }, rfl, rfl⟩
      fun _ ha => ⟨rfl, ⟨ha.well.sticky, ha.well.admin, ha.well.state⟩⟩
  refine hreset.trans ?_
  unfold ackLast
  generalize (s.setEndpoint n fun e => { e with head := 0, tail := 0 }) = s
  dsimp only
  split
  · rename_i hsticky
    dsimp only
    exact .setEndpoint ⟨fun _ => trivial, fun _ hf => { hf with }, rfl, rfl⟩ fun _ ha =>
      ⟨(ha.well.sticky hsticky).symm, ⟨fun _ => rfl, fun _ => rfl, fun _ => rfl⟩⟩
  rename_i hsticky
  split
  · rename_i hadmin
    dsimp only
    exact .setEndpoint ⟨fun _ => trivial, fun _ hf => { hf with }, rfl, rfl⟩ fun _ ha =>
      ⟨rfl, ⟨ha.well.sticky, ha.well.admin, fun _ => ha.well.admin hadmin⟩⟩
  rename_i hadmin
  split
  · rename_i hfail
    dsimp only
    exact .setEndpoint ⟨fun _ => trivial, fun _ hf => { hf with }, rfl, rfl⟩ fun hw _ =>
      absurd hfail.2 (by simp [hw.enable])
  have harm : ∀ s : IrqState, IrqPart s (s.setEndpoint n fun e => { e with state := .armed }) n
      a.Works := fun s =>
    .setEndpoint ⟨fun _ => trivial, fun _ hf => { hf with }, rfl, rfl⟩ fun _ ha =>
      ⟨rfl, ⟨ha.well.sticky, ha.well.admin, fun h1 => by simp at h1⟩⟩
  split
  · have hsoft : IrqSoft s ((s.controllerEnable a.enable (s.endpoint n).source).setFlags n fun f =>
        { f with masked := false }) n :=
      (IrqSoft.controllerEnable rfl _).trans (.setFlags rfl)
    refine ⟨hsoft.trans (harm _).soft, rfl, fun hw ha => ⟨?_, ?_⟩⟩
    · simp only [setEndpoint_endpoint, setFlags_endpoint, controllerEnable_endpoint]
      exact ⟨fun h1 => absurd h1 hsticky, fun h1 => absurd h1 hadmin, fun h1 => by simp at h1⟩
    · simp [hw.enable]
  · exact harm s

theorem ackCompleted_part (s : IrqState) (n : ℕ) (a : IrqAnswers) :
    IrqPart s (ackCompleted s n a).2 n a.Works := by
  unfold ackCompleted
  dsimp only
  split
  · rename_i hack
    dsimp only
    exact ⟨.setFlags rfl, rfl, fun hw _ => absurd hack.2 (by simp [hw.acknowledge])⟩
  have hretired : IrqPart s (s.setEndpoint n fun e => e.retired) n a.Works :=
    .setEndpoint (.retired _) fun _ ha => ⟨rfl, ⟨ha.well.sticky, ha.well.admin, ha.well.state⟩⟩
  refine hretired.trans ?_
  split_ifs
  · dsimp only
    exact .setEndpoint ⟨fun _ => trivial, fun _ hf => { hf with }, rfl, rfl⟩ fun _ ha =>
      ⟨rfl, ⟨ha.well.sticky, ha.well.admin, fun h1 => by simp at h1⟩⟩
  · exact ackLast_part _ n a

theorem kernelIrqAck_outcome (ha : irqActiveState (s.endpoint n).state)
    (sequence : ℕ) (a : IrqAnswers) : IrqOutcome s (kernelIrqAck s n sequence a).2 n False
      (a.Works ∧ IrqAgrees s n) False := by
  have hrefl : IrqOutcome s s n False (a.Works ∧ IrqAgrees s n) False :=
    .refl (fun _ _ h1 => h1) fun hb => ⟨hb.2.well, by simp [hb.2.enabled]⟩
  have hgate : ¬ (n < kernelIrqEndpointMax ∧ (s.endpoint n).state = .revoking) :=
    fun h1 => (irqActiveState_iff.1 ha).2 h1.2
  unfold kernelIrqAck
  rw [if_neg hgate]
  split
  · exact hrefl
  split
  · exact hrefl
  rename_i hcount
  split
  · exact hrefl
  refine IrqPart.outcome ?_ hcount
  split
  · dsimp only
    refine ⟨(IrqSoft.setFlags rfl).trans (.controllerMask ?_ _), rfl, fun hw _ => ⟨?_, ?_⟩⟩
    · rw [setFlags_endpoint]
    · simp only [controllerMask_endpoint, setFlags_endpoint]
      exact ⟨fun _ => rfl, fun _ => rfl, fun _ => rfl⟩
    · simp [hw.mask]
  · have hmark : IrqPart s (s.setFlags n fun f => { f with deviceCompleted := true }) n a.Works :=
      .setEndpoint ⟨id, fun _ hf => { hf with }, rfl, rfl⟩ fun _ ha =>
        ⟨rfl, ⟨ha.well.sticky, ha.well.admin, ha.well.state⟩⟩
    exact hmark.trans (ackCompleted_part _ n a)

end

end Astra
