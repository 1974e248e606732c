import AstraKernel.Proofs.Retire
import AstraKernel.Thread.Step

/-!
# What one call does

Every call on a healthy pool leaves it healthy, unless it retires a thread that runs at a donated
priority. A call leaves all waits as they are, touches one thread that is in none, starts a wait, or
ends waits.
-/

namespace Astra

open Function List

/-- Whether a retirement finds no thread on a ready list at a priority that is donated. -/
def Retirable (p : Pool) : ThreadOp → Prop
  | .retireProcess process _ => Unlifted p process none
  | .execRetireOthers process survivor _ => Unlifted p process (some survivor)
  | _ => True

def Sane (p : Pool) (op : ThreadOp) : Prop :=
  Admissible p op ∧ Retirable p op

/-- The wait that a wake of the first of a queue ends. -/
def wakeOf (p : Pool) (queue : QueueRef) (result : ℕ) (t : Slot) (e : Ending) : Prop :=
  ∃ m, (p.waits.queue queue).head = some (t, m) ∧ e = .woken m result 0 false

/-- The waits that a call may end, and how. -/
def endingsOf (p : Pool) : ThreadOp → Slot → Ending → Prop
  | .wakeOne queue result => wakeOf p queue result
  | .wakeAll queue result => wakesOf p queue result 0 false
  | .wakeAllDetail queue result detail one => wakesOf p queue result detail one
  | .cancelWait t result => fun x e => x = t ∧ e = .ended result
  | .expireDeadlines now => timeoutOf p now
  | .callComplete t result size handleCount replier =>
    fun x e => x = t ∧ e = .replied result size handleCount replier
  | .handleRelease t => deathsOf p t astraSyscallClosed 0
  | .complete t exitStatus terminalResult =>
    deathsOf p t terminalResult (if terminalResult = astraSyscallOk then exitStatus else 0)
  | .retireProcess process terminalResult =>
    endsBelow p process none terminalResult p.threadSlots
  | .execRetireOthers process survivor terminalResult =>
    endsBelow p process (some survivor) terminalResult p.threadSlots
  | _ => fun _ _ => False

structure Began (p p' : Pool) (t : Slot) : Prop where
  valid : validThread p t
  running : p.state t = .running
  idle : p.call t = 0
  eq : ∃ rows, p' = { p with
    waits := { p.waits with rowAllocated := rows }
    nextCall := kernelGenerationNext p.nextCall
    call := update p.call t (kernelGenerationNext p.nextCall) }

/-- The thread that a call blocks. -/
def ThreadOp.blocks : ThreadOp → Slot → Prop
  | .blockUntil t _ _ _ _ _ _ _ => fun x => x = t
  | .blockWaitSet t _ _ _ _ _ _ => fun x => x = t
  | .callBlock t _ _ _ _ => fun x => x = t
  | .waitForDeath _ waiter _ _ _ _ _ => fun x => x = waiter
  | _ => fun _ => False

def ThreadOp.begins : ThreadOp → Slot → Prop
  | .callBegin t _ => fun x => x = t
  | _ => fun _ => False

/-- What a call does to the waits; `B` are the threads it may block, `C` those whose port call it may
begin, and `W` the ways it may end waits in. -/
inductive Effect (p p' : Pool) (B C : Slot → Prop) (W : Slot → Ending → Prop) : Prop
  | calm (h : Calm p p')
  | aside (t : Slot) (h : Aside p p' t)
  | began (t : Slot) (hC : C t) (h : Began p p' t)
  | started (t : Slot) (data : Slot → ℕ → ℕ) (specs : List KernelThreadWaitSpec)
      (deadline timeoutResult : ℕ) (mode : KernelThreadWaitMode) (hB : B t)
      (hd : ∀ x, x ≠ t → data x = p.data x)
      (h : Started { p with data := data } p' t specs deadline timeoutResult mode)
  | observed (t : Slot) (observer : ℕ) (hb : p.state t = .blocked) (hn : p.waitObserver t = none)
      (h : p' = { p with waitObserver := update p.waitObserver t (some observer) })
  | ended (h : Progress p p' none 1 W)
  | reaped (h : Reaped p p')

section

variable {p p' : Pool} {R : ℕ → List Slot} {Q : QueueRef → List Registration}
  {S : Finset Registration} {D : Slot → List Slot} {B C : Slot → Prop} {W : Slot → Ending → Prop}
  {t : Slot}

theorem Stays.effect (h : Stays p p') : Healthy p' ∧ Effect p p' B C W :=
  ⟨h.1, .calm h.2⟩

theorem Woke.effect {k : ℕ} (h : Woke p p' none k W) (hk : k ≤ 1) : Healthy p' ∧ Effect p p' B C W :=
  ⟨h.healthy, .ended (h.progress.mono hk fun _ _ hW => hW)⟩

section

variable (h : Sound p R Q S D none)
include h

theorem Sound.owner_none (hb : p.state t ≠ .blocked) : p.donors.waitOwnerSlot t = none := by
  rcases ho : p.donors.waitOwnerSlot t with _ | r
  · rfl
  · exact absurd (h.donated.ends r t ((h.donated.owner t r).1 ho)).2.2.2.1 hb

theorem Sound.recall (hb : p.state t ≠ .blocked) (c n : ℕ) :
    Sound { p with nextCall := n, call := update p.call t c } R Q S D none where
  queued := { h.queued with }
  donated := { h.donated.recall (h.owner_none hb) c with }
  steady := { h.steady with }

theorem Sound.setData (data : Slot → ℕ → ℕ) : Sound { p with data := data } R Q S D none where
  queued := { h.queued with }
  donated := { h.donated with }
  steady := { h.steady with }

end

section

variable (h : Healthy p)
include h

theorem Healthy.members_eq_zero (hv : validThread p t) (hb : p.state t ≠ .blocked) :
    p.waits.waitMemberCount t = 0 := by
  obtain ⟨R, Q, S, D, h⟩ := h
  by_contra hne
  exact hb ((h.queued.waiting t hv).1 hne).1

theorem kernelThreadCallBegin_spec (t : Slot) (rowMemory : Bool) :
    (∃ status, status ≠ .ok ∧ kernelThreadCallBegin p t rowMemory = ((status, p), 0)) ∨
      ∃ p', kernelThreadCallBegin p t rowMemory = ((.ok, p'), kernelGenerationNext p.nextCall) ∧
        Healthy p' ∧ Began p p' t := by
  unfold kernelThreadCallBegin
  by_cases hgate : ¬ validThread p t ∨ p.state t ≠ .running ∨ p.call t ≠ 0
  · exact .inl ⟨.invalidArgument, by simp, by rw [if_pos hgate]⟩
  rw [if_neg hgate]
  push Not at hgate
  obtain ⟨hv, hs, hc⟩ := hgate
  have hb : p.state t ≠ .blocked := by simp [hs]
  have hm := h.members_eq_zero hv hb
  obtain ⟨R, Q, S, D, h⟩ := h
  rcases ensureWaitRegistrations_spec h.queued hm rowMemory with he | he
  · exact .inl ⟨.outOfMemory, by simp, by rw [he]⟩
  rw [he]
  refine .inr ⟨_, rfl, ?_, hv, hs, hc, _, rfl⟩
  exact ⟨R, Q, S, D, (h.allocateRow t).recall hb _ _⟩

theorem kernelThreadCallAbort_effect (t : Slot) :
    Healthy (kernelThreadCallAbort p t).2 ∧ Effect p (kernelThreadCallAbort p t).2 B C W := by
  unfold kernelThreadCallAbort
  split_ifs with hgate
  · exact (Stays.refl h).effect
  push Not at hgate
  obtain ⟨hv, hs, -⟩ := hgate
  have hb : p.state t ≠ .blocked := by simp [hs]
  obtain ⟨R, Q, S, D, h⟩ := h
  refine ⟨⟨R, Q, S, D, h.recall hb 0 p.nextCall⟩, .aside t ?_⟩
  refine ⟨fun _ => hb, hb, rfl, fun x hx => ?_, fun _ _ => rfl, fun _ _ => rfl,
    fun _ _ => rfl, fun _ => ⟨hv, rfl⟩, rfl, .inr (update_self ..)⟩
  exact ⟨rfl, rfl, fun _ => rfl, Iff.rfl, rfl, rfl, rfl, rfl, rfl, update_of_ne hx _ _⟩

theorem kernelThreadObserveWait_effect (t : Slot) (observer : ℕ) :
    Healthy (kernelThreadObserveWait p t observer).2 ∧
      Effect p (kernelThreadObserveWait p t observer).2 B C W := by
  unfold kernelThreadObserveWait
  split_ifs with hgate
  · exact (Stays.refl h).effect
  push Not at hgate
  obtain ⟨-, hs, -, hn⟩ := hgate
  obtain ⟨R, Q, S, D, h⟩ := h
  refine ⟨⟨R, Q, S, D, { h.queued with }, { h.donated with }, { h.steady with
    observer := fun x hv hx => ?_ }⟩, .observed t observer hs hn rfl⟩
  have hne : x ≠ t := by
    rintro rfl
    exact hx hs
  exact (update_of_ne hne _ _).trans (h.steady.observer x hv hx)

theorem blockWaitSet_effect (specs : List KernelThreadWaitSpec)
    (now deadline timeoutResult : ℕ) (mode : KernelThreadWaitMode) (rowMemory heapMemory : Bool)
    (hwait : Waitable p t specs mode) :
    Healthy (blockWaitSet p t specs now deadline timeoutResult mode rowMemory heapMemory).2 ∧
      Effect p (blockWaitSet p t specs now deadline timeoutResult mode rowMemory heapMemory).2 (· = t)
        C W := by
  obtain ⟨R, Q, S, D, h⟩ := h
  rcases blockWaitSet_spec h specs now deadline timeoutResult mode rowMemory heapMemory hwait with
    ⟨p', he, h1, h2⟩ | ⟨status, w, -, he, h1, h2⟩
  · rw [he]
    exact ⟨h1, .started t p.data specs deadline timeoutResult mode rfl (fun _ _ => rfl) h2⟩
  · rw [he]
    exact ⟨h1, .calm h2⟩

end

theorem waitable_of_outer {specs : List KernelThreadWaitSpec} {mode : KernelThreadWaitMode}
    (h : ∀ spec ∈ specs, outerQueue p spec.queue) : Waitable p t specs mode := by
  intro spec hs
  have := h spec hs
  rcases hq : spec.queue with _ | (n | s | s)
  · trivial
  · trivial
  · simpa only [hq, outerQueue] using this
  · rw [hq] at this
    exact this.elim

theorem waitable_call {sequence : ℕ} : Waitable p t [⟨some (.call t), sequence⟩] .one := by
  intro spec hs
  rw [mem_singleton.1 hs]
  exact ⟨rfl, rfl, rfl⟩

theorem kernelThreadCallBlock_effect (h : Healthy p) (t : Slot) (now deadline : ℕ)
    (rowMemory heapMemory : Bool) :
    Healthy (kernelThreadCallBlock p t now deadline rowMemory heapMemory).2 ∧
      Effect p (kernelThreadCallBlock p t now deadline rowMemory heapMemory).2 (· = t) C W := by
  unfold kernelThreadCallBlock
  split_ifs with hgate
  · exact (Stays.refl h).effect
  · exact blockWaitSet_effect h _ now deadline astraSyscallTimedOut .one rowMemory heapMemory
      waitable_call

theorem kernelThreadPrepareDeathWait_eq {target waiter : Slot} {answer : DeathWait}
    (h : kernelThreadPrepareDeathWait p target waiter = (.ok, answer)) :
    validThread p target ∧ validThread p waiter ∧ p.state waiter = .running ∧
      (answer.ready = false → answer.spec.queue = some (.death target)) := by
  unfold kernelThreadPrepareDeathWait at h
  by_cases hgate : ¬ validThread p target ∨ ¬ validThread p waiter ∨ target = waiter
      ∨ p.state waiter ≠ .running
  · simp [hgate] at h
  simp only [if_neg hgate] at h
  push Not at hgate
  refine ⟨hgate.1, hgate.2.1, hgate.2.2.2, fun hr => ?_⟩
  split at h
  · rw [← (Prod.mk.inj h).2] at hr
    simp at hr
  by_cases hu : p.state target = .unused ∨ p.state target = .created
  · simp [hu] at h
  · rw [if_neg hu] at h
    rw [← (Prod.mk.inj h).2]

section

variable (h : Healthy p)
include h

theorem kernelThreadWaitForDeath_effect (target waiter : Slot)
    (now deadline timeoutResult : ℕ) (rowMemory heapMemory : Bool) :
    Healthy (kernelThreadWaitForDeath p target waiter now deadline timeoutResult rowMemory
        heapMemory).1.2 ∧
      Effect p (kernelThreadWaitForDeath p target waiter now deadline timeoutResult rowMemory
        heapMemory).1.2 (· = waiter) C W := by
  unfold kernelThreadWaitForDeath
  split
  · exact (Stays.refl h).effect
  rcases hprep : kernelThreadPrepareDeathWait p target waiter with ⟨status, answer⟩
  simp only
  split
  · exact (Stays.refl h).effect
  rename_i hr
  simp only [not_or, not_not, Bool.not_eq_true] at hr
  obtain ⟨rfl, hready⟩ := hr
  obtain ⟨hvt, hvw, hs, hq⟩ := kernelThreadPrepareDeathWait_eq hprep
  have hb : p.state waiter ≠ .blocked := by simp [hs]
  obtain ⟨R, Q, S, D, h⟩ := h
  have hdata : ∀ x, x ≠ waiter → (p.setData waiter 1 0).data x = p.data x :=
    fun x hx => update_of_ne hx _ _
  have hwait : Waitable (p.setData waiter 1 0) waiter [⟨answer.spec.queue, answer.spec.sequence⟩]
      .one := by
    rw [hq hready]
    intro spec hspec
    rw [mem_singleton.1 hspec]
    exact hvt
  rcases blockWaitSet_spec (h.setData (p.setData waiter 1 0).data)
      [⟨answer.spec.queue, answer.spec.sequence⟩] now deadline timeoutResult .one rowMemory
      heapMemory hwait with ⟨p', he, h1, h2⟩ | ⟨status, w, hne, he, h1, h2⟩
  · have he' : kernelThreadBlockUntil (p.setData waiter 1 0) waiter answer.spec.queue
        answer.spec.sequence now deadline timeoutResult rowMemory heapMemory = (.ok, p') := he
    rw [he']
    exact ⟨h1, .started waiter _ _ deadline timeoutResult .one rfl hdata h2⟩
  · have he' : kernelThreadBlockUntil (p.setData waiter 1 0) waiter answer.spec.queue
        answer.spec.sequence now deadline timeoutResult rowMemory heapMemory
        = (status, { p.setData waiter 1 0 with waits := w }) := he
    rw [he']
    have haside : Aside p { p.setData waiter 1 0 with waits := w } waiter := by
      refine ⟨fun _ => hb, hb, rfl, fun x hx => ?_, fun _ _ => rfl, fun _ _ => rfl,
        fun _ _ => rfl, fun _ => ⟨hvw, rfl⟩, rfl, .inl ⟨hvw, rfl⟩⟩
      exact { h2.still x with data := (h2.still x).data.trans (hdata x hx) }
    cases status
    case ok => exact absurd rfl hne
    all_goals exact ⟨h1, .aside waiter haside⟩

theorem kernelThreadAllocate_effect (processSlot processId programCounter userStack
    argument priority : ℕ) (memory : ThreadMemory) :
    Healthy (kernelThreadAllocate p processSlot processId programCounter userStack argument priority
        memory).1.2 ∧
      Effect p (kernelThreadAllocate p processSlot processId programCounter userStack argument
        priority memory).1.2 B C W := by
  rcases kernelThreadAllocate_spec h processSlot processId programCounter userStack argument
    priority memory with ⟨slot, p', he, -, h1, h2⟩ | ⟨status, p', he, -, h1⟩
  · rw [he]
    exact ⟨h1, .aside slot h2⟩
  · rw [he]
    exact h1.effect

theorem kernelThreadWakeOne_effect (queue : QueueRef) (result : ℕ) :
    Healthy (kernelThreadWakeOne p queue result).1.2 ∧
      Effect p (kernelThreadWakeOne p queue result).1.2 B C (wakeOf p queue result) := by
  obtain ⟨R, Q, S, D, h⟩ := h
  rcases kernelThreadWakeOne_spec h queue (fun _ _ => .inl rfl) result with
    ⟨-, he⟩ | ⟨r, l, p', hQ, he, hw, -⟩
  · rw [he]
    exact (Woke.advance h queue _).effect le_rfl
  · rw [he]
    have hhead : (p.waits.queue queue).head = some r := by
      have := h.queued.waits.lists.head queue
      rw [hQ] at this
      exact this
    refine ((Woke.advance h queue (wakeOf p queue result)).trans_advanced (advance_moves p queue)
      (hw.mono le_rfl fun x e hx => ?_)).effect le_rfl
    obtain ⟨rfl, rfl⟩ := hx
    exact ⟨r.2, hhead, rfl⟩

theorem kernelThreadExpireDeadlines_effect (now : ℕ) :
    Healthy (kernelThreadExpireDeadlines p now).1.2 ∧
      Effect p (kernelThreadExpireDeadlines p now).1.2 B C (timeoutOf p now) := by
  have hp := h
  obtain ⟨R, Q, S, D, h⟩ := h
  rcases kernelThreadExpireDeadlines_spec h now with ⟨-, he⟩ | ⟨p', n, m, he, hw⟩
  · rw [he]
    exact (Stays.refl hp).effect
  · rw [he]
    exact hw.effect (Nat.zero_le 1)

theorem retireProcessThreads_effect {process result : ℕ} {survivor : Option Slot}
    (hu : Unlifted p process survivor) (releaseStacks : Bool) :
    Healthy (retireProcessThreads p process survivor result releaseStacks).1.2 ∧
      Effect p (retireProcessThreads p process survivor result releaseStacks).1.2 B C
        (endsBelow p process survivor result p.threadSlots) := by
  by_cases hs : ∃ t ∈ survivor, ¬ validThread p t ∨ p.processSlot t ≠ process
      ∨ p.state t ≠ .running
  · rw [retireProcessThreads, if_pos hs]
    exact (Stays.refl h).effect
  have hok : ∀ t, survivor = some t →
      validThread p t ∧ p.processSlot t = process ∧ p.state t = .running := by
    intro t ht
    by_contra hne
    refine hs ⟨t, ht, ?_⟩
    by_contra hno
    push Not at hno
    exact hne hno
  obtain ⟨p₁, hr, he⟩ := retireProcessThreads_spec h hu hok result releaseStacks
  rw [he]
  split_ifs
  · exact hr.woke.effect (Nat.zero_le 1)
  · have hkept : Housekept p₁ { p₁ with
        liveThreads := p₁.liveThreads - doomedIn p process survivor (List.range p.threadSlots) } :=
      ⟨_, _, _, _, _, _, _, _, _, rfl⟩
    refine ⟨(hkept.stays hr.woke.healthy).1, .ended ?_⟩
    exact (hr.woke.progress.trans (hkept.progress none _)).mono (by omega) fun _ _ hW => hW

theorem step_effect (op : ThreadOp) (hs : Sane p op) :
    Healthy (p.step op).2 ∧ Effect p (p.step op).2 op.blocks op.begins (endingsOf p op) := by
  cases op with
  | allocate processSlot processId programCounter userStack initialArgument priority memory =>
    exact kernelThreadAllocate_effect h _ _ _ _ _ _ _
  | attachHandle t handle => exact (kernelThreadAttachHandle_stays h t handle).effect
  | publish t => exact (kernelThreadPublish_stays h t).effect
  | abort t =>
    obtain ⟨h1, h2⟩ := kernelThreadAbort_spec h t hs.1
    exact ⟨h1, .reaped h2⟩
  | handleRelease t => exact (kernelThreadHandleRelease_spec h t).effect le_rfl
  | takeNext => exact (kernelThreadTakeNext_stays h).effect
  | makeReady t => exact (kernelThreadMakeReady_stays h t).effect
  | blockUntil t queue expectedSequence now deadline timeoutResult rowMemory heapMemory =>
    refine blockWaitSet_effect h _ now deadline timeoutResult .one rowMemory heapMemory
      (waitable_of_outer fun spec hspec => ?_)
    rw [mem_singleton.1 hspec]
    exact hs.1
  | blockWaitSet t specs now deadline timeoutResult rowMemory heapMemory =>
    exact blockWaitSet_effect h specs now deadline timeoutResult .multiple rowMemory heapMemory
      (waitable_of_outer hs.1)
  | observeWait t observer => exact kernelThreadObserveWait_effect h t observer
  | wakeOne queue result => exact kernelThreadWakeOne_effect h queue result
  | wakeAll queue result =>
    obtain ⟨R, Q, S, D, h⟩ := h
    obtain ⟨p', n, he, hw, -⟩ := kernelThreadWakeAllDetail_spec h queue result 0 false
    have he' : (p.step (.wakeAll queue result)).2 = p' := congrArg (·.1.2) he
    rw [he']
    exact hw.effect le_rfl
  | wakeAllDetail queue result detail one =>
    obtain ⟨R, Q, S, D, h⟩ := h
    obtain ⟨p', n, he, hw, -⟩ := kernelThreadWakeAllDetail_spec h queue result detail one
    have he' : (p.step (.wakeAllDetail queue result detail one)).2 = p' := congrArg (·.1.2) he
    rw [he']
    exact hw.effect le_rfl
  | cancelWait t result =>
    have hp := h
    obtain ⟨R, Q, S, D, h⟩ := h
    show Healthy (kernelThreadCancelWait p t result).2 ∧
      Effect p (kernelThreadCancelWait p t result).2 _ _ _
    rcases kernelThreadCancelWait_spec h t result with ⟨status, -, he, -⟩ | ⟨p', he, -, hw⟩
    · rw [he]
      exact (Stays.refl hp).effect
    · rw [he]
      exact hw.effect (Nat.zero_le 1)
  | expireDeadlines now => exact kernelThreadExpireDeadlines_effect h now
  | callBegin t rowMemory =>
    show Healthy (kernelThreadCallBegin p t rowMemory).1.2 ∧
      Effect p (kernelThreadCallBegin p t rowMemory).1.2 _ _ _
    rcases kernelThreadCallBegin_spec h t rowMemory with ⟨status, -, he⟩ | ⟨p', he, h1, h2⟩
    · rw [he]
      exact (Stays.refl h).effect
    · rw [he]
      exact ⟨h1, .began t rfl h2⟩
  | callAbort t => exact kernelThreadCallAbort_effect h t
  | callBlock t now deadline rowMemory heapMemory =>
    exact kernelThreadCallBlock_effect h t now deadline rowMemory heapMemory
  | callAssign caller receiver => exact (kernelThreadCallAssign_stays h caller receiver).effect
  | mutexAssign waiter owner => exact (kernelThreadMutexAssign_stays h waiter owner).effect
  | callComplete t result size handleCount replier =>
    have hp := h
    obtain ⟨R, Q, S, D, h⟩ := h
    show Healthy (kernelThreadCallComplete p t result size handleCount replier).2 ∧
      Effect p (kernelThreadCallComplete p t result size handleCount replier).2 _ _ _
    rcases kernelThreadCallComplete_spec h t result size handleCount replier with
      ⟨status, -, he⟩ | ⟨p', he, hw⟩
    · rw [he]
      exact (Stays.refl hp).effect
    · rw [he]
      exact hw.effect le_rfl
  | setPriority t priority => exact (kernelThreadSetPriority_stays h t priority).effect
  | setInheritedPriority t priority =>
    exact (kernelThreadSetInheritedPriority_stays h t priority).effect
  | setBudgetThrottled t throttled =>
    exact (kernelThreadSetBudgetThrottled_stays h t throttled).effect
  | setProcessPriority process priority =>
    exact (kernelThreadSetProcessPriority_stays h process priority).effect
  | suspendProcess process => exact (kernelThreadSuspendProcess_stays h process).effect
  | resumeProcess process => exact (kernelThreadResumeProcess_stays h process).effect
  | complete t exitStatus terminalResult =>
    obtain ⟨h1, h2⟩ := kernelThreadComplete_spec h t exitStatus terminalResult
    exact ⟨h1, .ended (h2.mono (Nat.zero_le 1) fun _ _ hW => hW)⟩
  | waitForDeath target waiter now deadline timeoutResult rowMemory heapMemory =>
    exact kernelThreadWaitForDeath_effect h target waiter now deadline timeoutResult rowMemory
      heapMemory
  | finishReap t =>
    obtain ⟨h1, h2⟩ := kernelThreadFinishReap_spec h t
    exact ⟨h1, .reaped h2⟩
  | retireProcess process terminalResult =>
    exact retireProcessThreads_effect h hs.2 false
  | execRetireOthers process survivor terminalResult =>
    exact retireProcessThreads_effect h hs.2 true
  | releaseProcess process =>
    obtain ⟨h1, h2⟩ := kernelThreadReleaseProcess_spec h process
    exact ⟨h1, .reaped h2⟩

end

theorem healthy_init (audit : Bool) : Healthy (kernelThreadPoolInit audit) := by
  refine ⟨fun _ => [], fun _ => [], ∅, fun _ => [], ?_, ?_, ?_⟩
  · constructor
    case ready => exact ⟨.empty, fun _ => rfl, fun k => by simp [kernelThreadPoolInit], by simp; rfl⟩
    case waits =>
      exact ⟨.empty, fun _ => rfl, fun r q => by simp [kernelThreadPoolInit], fun _ => rfl,
        fun r => by simp, rfl, fun t => rfl⟩
    case served => exact fun _ => .nil
    all_goals simp [kernelThreadPoolInit, validThread]
  · constructor
    case lists => exact .empty
    case grounded => exact .of_none fun _ => rfl
    all_goals simp [kernelThreadPoolInit, validThread]
  · constructor
    case heap => exact fun t i => by simp [kernelThreadPoolInit]
    all_goals simp [kernelThreadPoolInit, validThread, kernelThreadWaitQueueInit]

theorem run_healthy {ops : List ThreadOp} (h : Healthy p) (hs : p.Along Sane ops) :
    Healthy (p.run ops) :=
  Pool.run_induction (I := Healthy) (fun _ op h hs => (step_effect h op hs).1) h hs

end

end Astra
