import AstraKernel.Proofs.Block
import AstraKernel.Thread.Lifecycle

/-!
# Operations that leave every wait as it is

Changes of priority and of owners, and what the scheduler does with threads that are not blocked.
-/

namespace Astra

open Function List

def Stays (p p' : Pool) : Prop :=
  Healthy p' ∧ Calm p p'

theorem Stays.refl {p : Pool} (h : Healthy p) : Stays p p :=
  ⟨h, .refl p⟩

theorem Stays.trans {p p₁ p₂ : Pool} (h : Stays p p₁) (h' : Stays p₁ p₂) : Stays p p₂ :=
  ⟨h'.1, h.2.trans h'.2⟩

variable {I : Pool → Prop}

theorem Result.andThen_keeps {r : Result} {k : Pool → Result} (hr : I r.2)
    (hk : ∀ p, I p → I (k p).2) : I (r.andThen k).2 := by
  obtain ⟨status, p⟩ := r
  cases status
  case ok => exact hk p hr
  all_goals exact hr

theorem forEach_keeps {α : Type*} {body : Pool → α → Result}
    (hb : ∀ p a, I p → I (body p a).2) : ∀ (as : List α) (p : Pool), I p → I (forEach body p as).2
  | [], _, h => h
  | a :: as, p, h => Result.andThen_keeps (hb p a h) fun p₁ h₁ => forEach_keeps hb as p₁ h₁

section

variable {p p' : Pool} {R : ℕ → List Slot} {Q : QueueRef → List Registration}
  {S : Finset Registration} {D D' : Slot → List Slot} {t : Slot}

theorem Result.orCorrupt_snd (r : Result) : (r.orCorrupt fun p => (.ok, p)).2 = r.2 := by
  obtain ⟨status, p⟩ := r
  cases status <;> rfl

theorem Steady.settle (h : Steady p) {prio : PriorityTable} {rq : ReadyQueues} {w : WaitTable}
    {dn : DonorTable} (hw : p.waits.Frame w) : Steady (p.settle prio rq w dn) :=
  ⟨h.heap, h.timed, h.observer, fun t hv hb => (congrFun hw.mode t).trans (h.mode t hv hb),
    fun q => by
      show 0 < (w.queue q).sequence ∧ (w.queue q).sequence < 2 ^ 32
      rw [hw.sequence]
      exact h.sequence q, h.nextSlot⟩

theorem Settled.stays (h : Settled p p' S D' none none) (hs : Steady p) : Stays p p' := by
  obtain ⟨R', Q', hQ⟩ := h.queued
  have hD := h.donated
  obtain ⟨prio, rq, w, dn, rfl, hw, hr⟩ := h.moved
  exact ⟨⟨R', Q', S, D', hQ, hD, hs.settle hw⟩, rfl, rfl, rfl, fun t => ⟨congrFun hw.members t,
    congrFun hw.mode t, fun m => hr (t, m), Iff.rfl, rfl, rfl, rfl, rfl, rfl, rfl⟩, fun _ => Iff.rfl⟩

section

variable (h : Healthy p)
include h

theorem changeAndRefresh_stays (t : Slot) (b i : ℕ) (th : Bool) :
    Stays p (changeAndRefresh p t b i th).2 := by
  have hp := h
  obtain ⟨R, Q, S, D, h⟩ := h
  rcases changeAndRefresh_spec h.queued h.donated t b i th with ⟨p', h1, h2⟩ | ⟨status, -, -, h1⟩
  · rw [h1]
    exact h2.stays h.steady
  · rw [h1]
    exact .refl hp

theorem kernelThreadSetPriority_stays (t : Slot) (priority : ℕ) :
    Stays p (kernelThreadSetPriority p t priority).2 :=
  changeAndRefresh_stays h t _ _ _

theorem kernelThreadSetInheritedPriority_stays (t : Slot) (priority : ℕ) :
    Stays p (kernelThreadSetInheritedPriority p t priority).2 :=
  changeAndRefresh_stays h t _ _ _

theorem kernelThreadSetBudgetThrottled_stays (t : Slot) (throttled : Bool) :
    Stays p (kernelThreadSetBudgetThrottled p t throttled).2 :=
  changeAndRefresh_stays h t _ _ _

theorem kernelThreadSetProcessPriority_stays (process priority : ℕ) :
    Stays p (kernelThreadSetProcessPriority p process priority).2 := by
  unfold kernelThreadSetProcessPriority
  split_ifs
  · exact .refl h
  · exact .refl h
  · refine forEach_keeps (I := Stays p) (fun p₁ t h₁ => ?_) _ p (.refl h)
    by_cases hskip : ¬ liveIn p₁ process t ∨ p₁.prio.basePriority t = priority
    · simp only [if_pos hskip]
      exact h₁
    · simp only [if_neg hskip, Result.orCorrupt_snd]
      exact h₁.trans (kernelThreadSetPriority_stays h₁.1 t priority)

theorem assignWaitOwner_stays (hb : p.state t = .blocked) {receiver : Option Slot}
    {kind : KernelThreadDonation} (hk : WaitsFor p t kind) :
    Stays p (assignWaitOwner p t receiver kind).2 := by
  by_cases hgate : ¬ validThread p t ∨ ∃ r ∈ receiver, ¬ validThread p r ∨ p.state r = .dead
  · unfold assignWaitOwner
    rw [if_pos hgate]
    exact .refl h
  · push Not at hgate
    obtain ⟨R, Q, S, D, h⟩ := h
    obtain ⟨p', D', h1, h2, -⟩ := assignWaitOwner_spec h.queued h.donated hgate.1 hb hk
      fun r hr => ⟨(hgate.2 r hr).1, (hgate.2 r hr).2⟩
    rw [h1]
    exact h2.stays h.steady

end

theorem Queued.row_of_call (h : Queued p R Q S none) (hc : (p.waits.queue (.call t)).count ≠ 0) :
    (p.waits.row (t, 0)).queue = some (.call t) ∧ p.waits.waitMode t = .one ∧ (t, 0) ∈ S := by
  rw [h.waits.count] at hc
  obtain ⟨r, l, hQ⟩ := exists_cons_of_length_pos (Nat.pos_of_ne_zero hc)
  obtain ⟨rfl, hm⟩ := h.callQueue t r (by simp [hQ])
  exact ⟨(h.waits.queued (t, 0) _).2 (by simp [hQ]), hm, h.waits.mem (q := .call t) (by simp [hQ])⟩

theorem kernelThreadCallWaiting_eq {slot call : ℕ} {x : Slot}
    (h : kernelThreadCallWaiting p slot call = some x) : x = slot ∧ call ≠ 0 ∧ validThread p slot
      ∧ p.call slot = call ∧ p.state slot = .blocked ∧ (p.waits.queue (.call slot)).count ≠ 0 := by
  unfold kernelThreadCallWaiting at h
  split_ifs at h with hc
  push Not at hc
  exact ⟨(Option.some.inj h).symm, hc.1, hc.2.1, hc.2.2.1, hc.2.2.2.1, hc.2.2.2.2⟩

theorem kernelThreadCallAssign_stays (h : Healthy p) (caller : Slot) (receiver : Option Slot) :
    Stays p (kernelThreadCallAssign p caller receiver).2 := by
  unfold kernelThreadCallAssign
  split_ifs with hc
  · exact .refl h
  · push Not at hc
    obtain ⟨-, h1, h2, -⟩ := hc
    obtain ⟨-, -, -, -, hb, hcount⟩ := kernelThreadCallWaiting_eq h2
    refine assignWaitOwner_stays h hb (.inl ⟨rfl, h1, ?_⟩)
    obtain ⟨R, Q, S, D, h⟩ := h
    exact (h.queued.row_of_call hcount).1

theorem kernelThreadMutexAssign_stays (h : Healthy p) (waiter : Slot) (owner : Option Slot) :
    Stays p (kernelThreadMutexAssign p waiter owner).2 := by
  unfold kernelThreadMutexAssign
  split_ifs with hc
  · exact .refl h
  · push Not at hc
    obtain ⟨-, hb, -, hm, -, hrow, -⟩ := hc
    exact assignWaitOwner_stays h hb (.inr ⟨rfl, hm, hrow⟩)

variable {as : List Slot} {P : Pool → Slot → Prop} {suspended : Slot → Bool}
  {state : Slot → KernelThreadState} {process : ℕ}

theorem calm_of_ready {p : Pool} (rq : ReadyQueues) (h : ∀ t, state t = .blocked ↔ p.state t = .blocked) :
    Calm p { p with state := state, suspended := suspended, ready := rq } :=
  ⟨rfl, rfl, rfl, fun _ => ⟨rfl, rfl, fun _ => rfl, Iff.rfl, rfl, rfl, rfl, rfl, rfl, rfl⟩, h⟩

theorem Steady.of_ready (h : Steady p) (rq : ReadyQueues) (hs : ∀ t, state t = .blocked ↔ p.state t = .blocked) :
    Steady { p with state := state, suspended := suspended, ready := rq } :=
  ⟨h.heap, fun x hx => ⟨(h.timed x hx).1, (hs x).2 (h.timed x hx).2⟩,
    fun x hx hb => h.observer x hx fun h1 => hb ((hs x).2 h1),
    fun x hx hb => h.mode x hx fun h1 => hb ((hs x).2 h1), h.sequence, h.nextSlot⟩

theorem update_blocked_iff {s : KernelThreadState} (hp : p.state t ≠ .blocked) (hs : s ≠ .blocked)
    (x : Slot) : update p.state t s x = .blocked ↔ p.state x = .blocked := by
  by_cases hx : x = t
  · subst hx
    simp [hp, hs]
  · simp [hx]

theorem readyFrom (h : Sound p R Q S D none) (hv : validThread p t) (hs : p.state t ≠ .blocked)
    (hr : p.state t ≠ .ready) (hu : p.suspended t = false) :
    ∃ rq, enqueueReady { p with state := update p.state t .ready } t
        = (.ok, { p with state := update p.state t .ready, ready := rq }) ∧
      Stays p { p with state := update p.state t .ready, ready := rq } := by
  have hoff : Off p t := ⟨hs, fun h1 => absurd h1 hr⟩
  have hQ := (h.queued.enter hoff).restate (s := .ready) (by simp)
  obtain ⟨rq, R', h1, h2⟩ := hQ.enqueue hv (update_self ..) hu
  have hb := update_blocked_iff (s := .ready) hs (by simp)
  refine ⟨rq, h1, ⟨R', Q, S, D, h2, ?_, ?_⟩, calm_of_ready rq hb⟩
  · exact { h.donated.restate (s := .ready) (.inl (h.donated.owner_none hs)) (.inr (by simp)) with }
  · exact h.steady.of_ready rq hb

theorem kernelThreadMakeReady_stays (h : Healthy p) (t : Slot) :
    Stays p (kernelThreadMakeReady p t).2 := by
  unfold kernelThreadMakeReady
  split_ifs with hc
  · exact .refl h
  · push Not at hc
    obtain ⟨hv, hs, hu⟩ := hc
    obtain ⟨R, Q, S, D, h⟩ := h
    obtain ⟨rq, h1, h2⟩ := readyFrom h hv (by simp [hs]) (by simp [hs])
      (by simpa using hu)
    rw [h1]
    exact h2

theorem runFrom (h : Sound p R Q S D none) (hv : validThread p t) (hs : p.state t = .ready)
    (hu : p.suspended t = false) :
    ∃ rq, removeReady p t = (.ok, { p with ready := rq }) ∧
      Stays p { p with ready := rq, state := update p.state t .running } := by
  obtain ⟨rq, h1, h2⟩ := h.queued.dequeue hv hs hu
  have h3 := h2.restate (s := .running) (by simp)
  have hoff : Off { p with ready := rq, state := update p.state t .running } t := by
    refine ⟨?_, fun h4 => ?_⟩
    · show update p.state t .running t ≠ .blocked
      rw [update_self]
      simp
    · have h5 : update p.state t .running t = .ready := h4
      rw [update_self] at h5
      exact absurd h5 (by simp)
  have hb := update_blocked_iff (p := p) (t := t) (s := .running) (by simp [hs]) (by simp)
  have howner := h.donated.owner_none (t := t) (by simp [hs])
  refine ⟨rq, h1, ⟨_, Q, S, D, h3.leave hoff, ?_, ?_⟩, calm_of_ready rq hb⟩
  · exact { h.donated.restate (s := .running) (.inl howner) (.inr (by simp)) with }
  · exact h.steady.of_ready rq hb

theorem kernelThreadTakeNext_stays (h : Healthy p) : Stays p (kernelThreadTakeNext p).1.2 := by
  unfold kernelThreadTakeNext
  split_ifs
  · exact .refl h
  · exact .refl h
  rcases hhead : p.ready.readyHead (highestReadyPriority p.ready.readyBitmap) with _ | t
  · exact .refl h
  obtain ⟨R, Q, S, D, h⟩ := h
  rw [h.queued.ready.lists.head] at hhead
  obtain ⟨hv, hs, hu, -⟩ := (h.queued.readyMem t _).1 (mem_of_head? hhead)
  obtain ⟨rq, h1, h2⟩ := runFrom h hv hs hu
  simp only [hv, not_true, if_false, h1]
  exact h2

def Ahead (p : Pool) (process : ℕ) (P : Pool → Slot → Prop) (as : List Slot) : Prop :=
  as.Nodup ∧ ∀ t ∈ as, liveIn p process t → P p t

theorem Ahead.tail {a : Slot}
    (h : Ahead p process P (a :: as)) (hl : ∀ t, t ≠ a → (liveIn p' process t ↔ liveIn p process t))
    (hP : ∀ t, t ≠ a → P p t → P p' t) : Ahead p' process P as := by
  obtain ⟨hn, hf⟩ := h
  obtain ⟨ha, hn⟩ := nodup_cons.1 hn
  refine ⟨hn, fun t ht hlt => ?_⟩
  have hne : t ≠ a := fun he => ha (he ▸ ht)
  exact hP t hne (hf t (mem_cons_of_mem _ ht) ((hl t hne).1 hlt))

theorem liveIn_iff (ho : p'.occupied = p.occupied)
    (hp : p'.processSlot = p.processSlot) (hs : p'.state t = p.state t) :
    liveIn p' process t ↔ liveIn p process t := by
  unfold liveIn validThread
  rw [ho, hp, hs]

theorem suspendThread_spec (h : Healthy p) (ha : liveIn p process t) (hr : ¬ suspendRefused p t) :
    ∃ p', suspendThread process p t = (.ok, p') ∧ Stays p p' ∧ p'.occupied = p.occupied ∧
      p'.processSlot = p.processSlot ∧
      ∀ x, x ≠ t → p'.state x = p.state x ∧ p'.suspended x = p.suspended x := by
  have hv := ha.1
  simp only [suspendRefused, not_or, not_and, not_not] at hr
  obtain ⟨hu, hs⟩ := hr
  have hu : p.suspended t = false := by simpa using hu
  obtain ⟨R, Q, S, D, h⟩ := h
  unfold suspendThread
  rw [if_neg (not_not.2 ha)]
  by_cases hready : p.state t = .ready
  · obtain ⟨rq, h1, h2⟩ := h.queued.dequeue hv hready hu
    rw [if_pos hready, h1, Result.orCorrupt_ok]
    have h3 := h2.relabel (s := .ready) (by simp) true
    rw [← hready, update_eq_self] at h3
    have hoff : Off { p with ready := rq, suspended := update p.suspended t true } t :=
      ⟨by simp [hready], fun _ => update_self ..⟩
    refine ⟨_, rfl, ?_, rfl, rfl, fun x hx => ⟨?_, update_of_ne hx _ _⟩⟩
    · simp only [hready, reduceCtorEq, if_false]
      refine ⟨⟨_, Q, S, D, h3.leave hoff, { h.donated with }, ?_⟩, ?_⟩
      · exact h.steady.of_ready rq fun _ => Iff.rfl
      · exact calm_of_ready rq fun _ => Iff.rfl
    · simp [hready]
  rw [if_neg hready, Result.orCorrupt_ok]
  by_cases hrun : p.state t = .running
  · have hoff : Off p t := ⟨by simp [hrun], fun h1 => absurd h1 hready⟩
    have h3 := (h.queued.enter hoff).relabel (s := .ready) (by simp) true
    have hoff' : Off { p with
        state := update p.state t .ready, suspended := update p.suspended t true } t := by
      refine ⟨?_, fun _ => update_self ..⟩
      show update p.state t .ready t ≠ .blocked
      rw [update_self]
      simp
    have hb := update_blocked_iff (p := p) (t := t) (s := .ready) (by simp [hrun]) (by simp)
    have howner := h.donated.owner_none (t := t) (by simp [hrun])
    refine ⟨_, rfl, ?_, rfl, rfl, fun x hx => ⟨?_, update_of_ne hx _ _⟩⟩
    · simp only [hrun, if_true]
      refine ⟨⟨R, Q, S, D, h3.leave hoff', ?_, ?_⟩, ?_⟩
      · exact { h.donated.restate (s := .ready) (.inl howner) (.inr (by simp)) with }
      · exact h.steady.of_ready p.ready hb
      · exact calm_of_ready p.ready hb
    · simp [hrun, hx]
  · have hb : p.state t = .blocked := hs hready hrun
    refine ⟨_, rfl, ?_, rfl, rfl, fun x hx => ⟨?_, update_of_ne hx _ _⟩⟩
    · simp only [hrun, if_false]
      refine ⟨⟨R, Q, S, D, h.queued.suspend hready true, { h.donated with }, ?_⟩, ?_⟩
      · exact h.steady.of_ready p.ready fun _ => Iff.rfl
      · exact calm_of_ready p.ready fun _ => Iff.rfl
    · simp [hrun]

theorem resumeThread_spec (h : Healthy p) (ha : liveIn p process t) (hr : ¬ resumeRefused p t) :
    ∃ p', resumeThread process p t = (.ok, p') ∧ Stays p p' ∧ p'.occupied = p.occupied ∧
      p'.processSlot = p.processSlot ∧
      ∀ x, x ≠ t → p'.state x = p.state x ∧ p'.suspended x = p.suspended x := by
  have hv := ha.1
  simp only [resumeRefused, not_or, not_and, not_not] at hr
  obtain ⟨hu, hs⟩ := hr
  have hu : p.suspended t = true := by simpa using hu
  obtain ⟨R, Q, S, D, h⟩ := h
  unfold resumeThread
  rw [if_neg (not_not.2 ha)]
  by_cases hready : p.state t = .ready
  · have hoff : Off p t := ⟨by simp [hready], fun _ => hu⟩
    have h3 := (h.queued.enter hoff).relabel (s := .ready) (by simp) false
    rw [← hready, update_eq_self] at h3
    obtain ⟨rq, R', h1, h2⟩ := h3.enqueue hv hready (update_self ..)
    simp only [if_pos hready, h1, Result.orCorrupt_ok]
    refine ⟨_, rfl, ⟨⟨R', Q, S, D, h2, { h.donated with }, ?_⟩, ?_⟩, rfl, rfl,
      fun x hx => ⟨rfl, update_of_ne hx _ _⟩⟩
    · exact h.steady.of_ready rq fun _ => Iff.rfl
    · exact calm_of_ready rq fun _ => Iff.rfl
  · simp only [if_neg hready, Result.orCorrupt_ok]
    refine ⟨_, rfl, ⟨⟨R, Q, S, D, h.queued.suspend hready false, { h.donated with }, ?_⟩, ?_⟩, rfl,
      rfl, fun x hx => ⟨rfl, update_of_ne hx _ _⟩⟩
    · exact h.steady.of_ready p.ready fun _ => Iff.rfl
    · exact calm_of_ready p.ready fun _ => Iff.rfl

theorem processLoop_stays {body : Pool → Slot → Result}
    (hskip : ∀ p t, ¬ liveIn p process t → body p t = (.ok, p))
    (hP : ∀ p p' t, p'.state t = p.state t → p'.suspended t = p.suspended t → P p t → P p' t)
    (hbody : ∀ p t, Healthy p → liveIn p process t → P p t →
      ∃ p', body p t = (.ok, p') ∧ Stays p p' ∧ p'.occupied = p.occupied ∧
        p'.processSlot = p.processSlot ∧
        ∀ x, x ≠ t → p'.state x = p.state x ∧ p'.suspended x = p.suspended x)
    (h : Healthy p) (ha : Ahead p process P as) :
    ∃ p', forEach body p as = (.ok, p') ∧ Stays p p' := by
  have hturn : ∀ a as p₁, Ahead p₁ process P (a :: as) ∧ Stays p p₁ →
      ∃ p', body p₁ a = (.ok, p') ∧ Ahead p' process P as ∧ Stays p p' := by
    rintro a as p₁ ⟨h1, h2⟩
    by_cases hl : liveIn p₁ process a
    · obtain ⟨p₂, h3, h4, h5, h6, h7⟩ := hbody p₁ a h2.1 hl (h1.2 a mem_cons_self hl)
      refine ⟨p₂, h3, h1.tail (fun t ht => liveIn_iff h5 h6 (h7 t ht).1) (fun t ht hPt => ?_),
        h2.trans h4⟩
      exact hP p₁ p₂ t (h7 t ht).1 (h7 t ht).2 hPt
    · exact ⟨p₁, hskip p₁ a hl, h1.tail (fun _ _ => Iff.rfl) (fun _ _ hPt => hPt), h2⟩
  obtain ⟨p', h1, -, h2⟩ :=
    forEach_ok (I := fun as p₁ => Ahead p₁ process P as ∧ Stays p p₁) hturn as p ⟨ha, .refl h⟩
  exact ⟨p', h1, h2⟩

theorem kernelThreadSuspendProcess_stays (h : Healthy p) (process : ℕ) :
    Stays p (kernelThreadSuspendProcess p process).2 := by
  unfold kernelThreadSuspendProcess
  split_ifs with hbad hnone
  · exact .refl h
  · exact .refl h
  · obtain ⟨p', h1, h2⟩ := processLoop_stays (P := fun p t => ¬ suspendRefused p t)
      (fun p t hl => by rw [suspendThread, if_pos hl])
      (fun p p' t h1 h2 hP => by simpa only [suspendRefused, h1, h2] using hP)
      (fun p t hp hl hP => suspendThread_spec hp hl hP) h
      (show Ahead p process _ (List.range p.threadSlots) from
        ⟨nodup_range, fun t ht hl hr => hbad ⟨t, ht, hl, hr⟩⟩)
    rw [h1]
    exact h2

theorem kernelThreadResumeProcess_stays (h : Healthy p) (process : ℕ) :
    Stays p (kernelThreadResumeProcess p process).2 := by
  unfold kernelThreadResumeProcess
  split_ifs with hbad hnone
  · exact .refl h
  · exact .refl h
  · obtain ⟨p', h1, h2⟩ := processLoop_stays (P := fun p t => ¬ resumeRefused p t)
      (fun p t hl => by rw [resumeThread, if_pos hl])
      (fun p p' t h1 h2 hP => by simpa only [resumeRefused, h1, h2] using hP)
      (fun p t hp hl hP => resumeThread_spec hp hl hP) h
      (show Ahead p process _ (List.range p.threadSlots) from
        ⟨nodup_range, fun t ht hl hr => hbad ⟨t, ht, hl, hr⟩⟩)
    rw [h1]
    exact h2

end

end Astra
