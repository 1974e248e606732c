import AstraKernel.Proofs.Owners
import AstraKernel.Proofs.Withdraw

/-!
# Completing a wait

`complete_wait` never fails on a blocked thread of a sound pool. It takes the thread out of the
heap, out of its whole wait set and off its owner, and it leaves the pool sound.
-/

/-!
## A thread in limbo

A thread that is off its ready list and out of its wait set may change its state and be suspended or
resumed. It leaves limbo when it is put on the ready list of its priority, or in a state that has
it on no queue.
-/

namespace Astra

open Function

variable {p : Pool} {R : ℕ → List Slot} {Q : QueueRef → List Registration}
  {S : Finset Registration} {D : Slot → List Slot} {limbo dirty loose : Option Slot} {t : Slot}

def Off (p : Pool) (t : Slot) : Prop :=
  p.state t ≠ .blocked ∧ (p.state t = .ready → p.suspended t = true)

theorem Queued.enter (h : Queued p R Q S none) (ht : Off p t) : Queued p R Q S (some t) := by
  refine { h with readyMem := fun x k => ?_, waiting := fun x hx => ?_ }
  · rw [h.readyMem]
    simp only [ne_eq, reduceCtorEq, not_false_iff, and_true, Option.some.injEq]
    refine ⟨fun ⟨h1, h2, h3, h4⟩ => ⟨h1, h2, h3, h4, ?_⟩, fun ⟨h1, h2, h3, h4, _⟩ => ⟨h1, h2, h3, h4⟩⟩
    rintro rfl
    simp [ht.2 h2] at h3
  · rw [h.waiting x hx]
    simp only [ne_eq, reduceCtorEq, not_false_iff, and_true, Option.some.injEq]
    refine ⟨fun h1 => ⟨h1, ?_⟩, And.left⟩
    rintro rfl
    exact ht.1 h1

theorem Queued.leave (h : Queued p R Q S (some t)) (ht : Off p t) : Queued p R Q S none := by
  refine { h with readyMem := fun x k => ?_, waiting := fun x hx => ?_ }
  · rw [h.readyMem]
    simp only [ne_eq, reduceCtorEq, not_false_iff, and_true, Option.some.injEq]
    refine ⟨fun ⟨h1, h2, h3, h4, _⟩ => ⟨h1, h2, h3, h4⟩, fun ⟨h1, h2, h3, h4⟩ => ⟨h1, h2, h3, h4, ?_⟩⟩
    rintro rfl
    simp [ht.2 h2] at h3
  · rw [h.waiting x hx]
    simp only [ne_eq, reduceCtorEq, not_false_iff, and_true, Option.some.injEq]
    refine ⟨And.left, fun h1 => ⟨h1, ?_⟩⟩
    rintro rfl
    exact ht.1 h1

variable {s : KernelThreadState}

theorem Queued.relabel (h : Queued p R Q S (some t)) (hs : s ≠ .unused) (u : Bool) :
    Queued { p with state := update p.state t s, suspended := update p.suspended t u } R Q S
      (some t) := by
  refine { h with
    readyMem := fun x k => ?_, waiting := fun x hx => ?_, known := fun x hx => ?_ }
  · rw [h.readyMem]
    by_cases hxt : x = t
    · simp [hxt]
    · simp only [update_of_ne hxt]
      exact Iff.rfl
  · by_cases hxt : x = t
    · have := h.waiting x hx
      simpa [hxt] using this
    · simp only [update_of_ne hxt]
      exact h.waiting x hx
  · by_cases hxt : x = t
    · simpa [hxt] using hs
    · simp only [update_of_ne hxt]
      exact h.known x hx

theorem Queued.restate (h : Queued p R Q S (some t)) (hs : s ≠ .unused) :
    Queued { p with state := update p.state t s } R Q S (some t) := by
  have := h.relabel hs (p.suspended t)
  rwa [update_eq_self] at this

theorem Queued.suspend (h : Queued p R Q S none) (ht : p.state t ≠ .ready) (u : Bool) :
    Queued { p with suspended := update p.suspended t u } R Q S none := by
  refine { h with readyMem := fun x k => ?_ }
  rw [h.readyMem]
  by_cases hxt : x = t
  · subst hxt
    simp [ht]
  · simp only [update_of_ne hxt]
    exact Iff.rfl

theorem Queued.dequeue (h : Queued p R Q S none) (hv : validThread p t) (hs : p.state t = .ready)
    (hu : p.suspended t = false) :
    ∃ rq, removeReady p t = (.ok, { p with ready := rq }) ∧
      Queued { p with ready := rq } (fun k => (R k).filter (· ≠ t)) Q S (some t) := by
  have hmem : t ∈ R (p.prio.effectivePriority t) := (h.readyMem t _).2 ⟨hv, hs, hu, rfl, by simp⟩
  obtain ⟨rq, h1, h2⟩ := removeReady_spec h.ready hv hs hmem fun s hs => ((h.readyMem s _).1 hs).1
  refine ⟨rq, h1, { h with
    ready := h2, readyMem := fun x k => ?_, waiting := fun x hx => ?_ }⟩
  · rw [List.mem_filter, h.readyMem]
    simp only [ne_eq, reduceCtorEq, not_false_iff, and_true, Option.some.injEq, decide_not,
      Bool.not_eq_true', decide_eq_false_iff_not, and_assoc, eq_comm (a := t)]
    exact Iff.rfl
  · rw [h.waiting x hx]
    simp only [ne_eq, reduceCtorEq, not_false_iff, and_true, Option.some.injEq]
    refine ⟨fun h1 => ⟨h1, ?_⟩, And.left⟩
    rintro rfl
    simp [hs] at h1

theorem Queued.enqueue (h : Queued p R Q S (some t)) (hv : validThread p t)
    (hs : p.state t = .ready) (hu : p.suspended t = false) :
    ∃ rq R', enqueueReady p t = (.ok, { p with ready := rq }) ∧
      Queued { p with ready := rq } R' Q S none := by
  have hoff : ∀ k, t ∉ R k := fun k hk => ((h.readyMem t k).1 hk).2.2.2.2 rfl
  obtain ⟨rq, h1, h2⟩ := enqueueReady_spec h.ready hv hs hu (h.effective_lt hv) hoff
    fun k s hs => ⟨((h.readyMem s k).1 hs).1, ((h.readyMem s k).1 hs).2.1⟩
  refine ⟨rq, _, h1, { h with
    ready := h2, readyMem := fun x k => ?_, waiting := fun x hx => ?_ }⟩
  · have hmem : x ∈ update R (p.prio.effectivePriority t) (R (p.prio.effectivePriority t) ++ [t]) k
        ↔ x ∈ R k ∨ x = t ∧ p.prio.effectivePriority t = k := by
      rcases eq_or_ne k (p.prio.effectivePriority t) with rfl | hk
      · simp
      · simp [hk, hk.symm]
    rw [hmem, h.readyMem]
    simp only [ne_eq, reduceCtorEq, not_false_iff, and_true, Option.some.injEq]
    constructor
    · rintro (⟨h3, h4, h5, h6, -⟩ | ⟨rfl, h3⟩)
      · exact ⟨h3, h4, h5, h6⟩
      · exact ⟨hv, hs, hu, h3⟩
    · rintro ⟨h3, h4, h5, h6⟩
      rcases eq_or_ne x t with rfl | hxt
      · exact .inr ⟨rfl, h6⟩
      · exact .inl ⟨h3, h4, h5, h6, Ne.symm hxt⟩
  · rw [h.waiting x hx]
    simp only [ne_eq, reduceCtorEq, not_false_iff, and_true, Option.some.injEq]
    refine ⟨And.left, fun h3 => ⟨h3, ?_⟩⟩
    rintro rfl
    simp [hs] at h3

theorem Donated.restate (h : Donated p D dirty loose)
    (ho : p.donors.waitOwnerSlot t = none ∨ s = .blocked) (hD : D t = [] ∨ s ≠ .dead) :
    Donated { p with state := update p.state t s } D dirty loose := by
  refine { h with ends := fun r x hx => ?_ }
  obtain ⟨h1, h2, h3, h4, h5⟩ := h.ends r x hx
  refine ⟨h1, h2, ?_, ?_, h5⟩
  · by_cases hr : r = t
    · subst hr
      rcases hD with hD | hD
      · simp [hD] at hx
      · simpa using hD
    · simpa [hr] using h3
  · by_cases hxt : x = t
    · subst hxt
      rcases ho with ho | ho
      · rw [(h.owner x r).2 hx] at ho
        exact absurd ho (by simp)
      · simpa using ho
    · simpa [hxt] using h4

end Astra

namespace Astra

open Function

/-- The rest of what always holds of the pool: deadlines, observers and wait modes belong to blocked
threads, a queue's sequence is never zero, and the next slot is one. -/
structure Steady (p : Pool) : Prop where
  heap : HeapShape p.deadlines
  timed : ∀ t ∈ p.deadlines.heap, validThread p t ∧ p.state t = .blocked
  observer : ∀ t, validThread p t → p.state t ≠ .blocked → p.waitObserver t = none
  mode : ∀ t, validThread p t → p.state t ≠ .blocked → p.waits.waitMode t = .none
  sequence : ∀ q, 0 < (p.waits.queue q).sequence ∧ (p.waits.queue q).sequence < 2 ^ 32
  nextSlot : p.nextThreadSlot < kernelThreadSlotNone

/-- Every thread is where its state says, and every priority is exact. Of a `loose` donor it is not
known what it waits for. -/
structure Sound (p : Pool) (R : ℕ → List Slot) (Q : QueueRef → List Registration)
    (S : Finset Registration) (D : Slot → List Slot) (loose : Option Slot) : Prop where
  queued : Queued p R Q S none
  donated : Donated p D none loose
  steady : Steady p

theorem kernelGenerationNext_pos (s : ℕ) :
    0 < kernelGenerationNext s ∧ kernelGenerationNext s < 2 ^ 32 := by
  unfold kernelGenerationNext
  split_ifs <;> omega

/-- The data registers after a wait in `mode` has completed. -/
def endData (data : ℕ → ℕ) (mode : KernelThreadWaitMode) (member : Option ℕ)
    (result detail : ℕ) (writeOneDetail : Bool) : ℕ → ℕ :=
  let data := update data 0 result
  if mode = .multiple then update (update data 1 (member.getD astraWaitIndexNone)) 2 detail
  else if writeOneDetail then update data 1 detail
  else data

theorem completeContext_eq (p : Pool) (t : Slot) (mode : KernelThreadWaitMode)
    (member : Option ℕ) (result detail : ℕ) (one : Bool) :
    completeContext p t mode member result detail one
      = { p with data := update p.data t (endData (p.data t) mode member result detail one) } := by
  unfold completeContext endData Pool.setData
  split_ifs <;> simp

/-- What the observer of a thread is told. -/
def notice (p : Pool) (t : Slot) (result : ℕ) : List (Slot × ℕ × ℕ) :=
  (p.waitObserver t).toList.map fun observer => (t, observer, result)

theorem notifyWaitObserver_eq (p : Pool) (t : Slot) (result : ℕ) :
    notifyWaitObserver p t result = { p with
      waitObserver := update p.waitObserver t none
      observed := p.observed ++ notice p t result } := by
  unfold notifyWaitObserver notice
  rcases ho : p.waitObserver t with _ | o
  · simp only [Option.toList_none, List.map_nil, List.append_nil]
    rw [← ho, update_eq_self]
  · rfl

def CallWait (p : Pool) (t : Slot) : Prop :=
  p.waits.waitMode t = .one ∧ (p.waits.row (t, 0)).queue = some (.call t)

instance (p : Pool) (t : Slot) : Decidable (CallWait p t) :=
  inferInstanceAs (Decidable (_ ∧ _))

structure Completed (p p' : Pool) (t : Slot) (already : Option QueueRef) (member : Option ℕ)
    (result detail : ℕ) (one : Bool) : Prop where
  eq : ∃ prio rq w dn d, p' = { p.settle prio rq w dn with
      deadlines := d
      state := update p.state t .ready
      call := if CallWait p t then update p.call t 0 else p.call
      data := update p.data t (endData (p.data t) (p.waits.waitMode t) member result detail one)
      waitObserver := update p.waitObserver t none
      observed := p.observed ++ notice p t result }
    ∧ Withdrawn p.waits w t already ∧ Undeadlined p.deadlines d t ∧ p.prio.SameOwn prio

section

variable {p : Pool} {R : ℕ → List Slot} {Q : QueueRef → List Registration}
  {S : Finset Registration} {D : Slot → List Slot} {limbo dirty loose : Option Slot} {t : Slot}
  {already : Option QueueRef}

variable {w w' : WaitTable}

theorem Withdrawn.frame {w'' : WaitTable} (h : Withdrawn w w' t already) (hF : w'.Frame w'')
    (hr : ∀ r, (w''.row r).queue = (w'.row r).queue) : Withdrawn w w'' t already where
  rowAllocated := hF.rowAllocated.trans h.rowAllocated
  members := hF.members.trans h.members
  mode := hF.mode.trans h.mode
  rows r := (hr r).trans (h.rows r)
  advanced q hq hw := (hF.sequence q).trans (h.advanced q hq hw)
  kept q hq := (hF.sequence q).trans (h.kept q hq)

theorem Withdrawn.sequence_pos (h : Withdrawn w w' t already)
    (hs : ∀ q, 0 < (w.queue q).sequence ∧ (w.queue q).sequence < 2 ^ 32) (q : QueueRef) :
    0 < (w'.queue q).sequence ∧ (w'.queue q).sequence < 2 ^ 32 := by
  by_cases hq : some q = already ∨ ¬ WaitsOn w t q
  · rw [h.kept q hq]
    exact hs q
  · rw [not_or, not_not] at hq
    rw [h.advanced q hq.1 hq.2]
    exact kernelGenerationNext_pos _

theorem Donated.withdrawn (h : Donated p D dirty loose) (hl : loose = none ∨ loose = some t)
    (hw : Withdrawn p.waits w t already) :
    Donated { p with waits := w } D dirty (some t) := by
  refine { h with kind := fun r x hx hxt => ?_ }
  have hne : x ≠ t := by simpa using Ne.symm hxt
  have := h.kind r x hx (by rcases hl with rfl | rfl <;> simp [hne.symm])
  simpa only [WaitsFor, hw.rows, hw.members, if_neg hne, update_of_ne hne] using this

theorem Donated.recall (h : Donated p D dirty loose) (ht : p.donors.waitOwnerSlot t = none)
    (c : ℕ) : Donated { p with call := update p.call t c } D dirty loose := by
  refine { h with kind := fun r x hx hxt => ?_ }
  have hne : x ≠ t := by
    rintro rfl
    rw [(h.owner x r).2 hx] at ht
    exact absurd ht (by simp)
  simpa only [WaitsFor, update_of_ne hne] using h.kind r x hx hxt

theorem Quiet.of_blocked (hs : p.state t = .blocked) (r : Slot) : Quiet p (some t) r := by
  intro x hx hr
  cases hx
  rw [hs] at hr
  exact absurd hr (by simp)

theorem withdraw_spec (h : Sound p R Q S D loose) (hl : loose = none ∨ loose = some t)
    (hv : validThread p t) (hb : p.state t = .blocked) (already : Option QueueRef) :
    ∃ d w₁, deadlineRemove p t = (.ok, { p with deadlines := d }) ∧
      withdrawWaitSet { p with deadlines := d } t already true
        = (.ok, { p with deadlines := d, waits := w₁ }) ∧
      ∃ prio rq w dn,
        dropWaitOwner { p with deadlines := d, waits := w₁ } t
          = (.ok, { p.settle prio rq w dn with deadlines := d }) ∧
        Withdrawn p.waits w t already ∧ Undeadlined p.deadlines d t ∧ p.prio.SameOwn prio ∧
        (∀ x, prio.effectivePriority x ≤ p.prio.effectivePriority x) ∧
        (∃ R' Q', Queued { p.settle prio rq w dn with deadlines := d } R' Q'
          (S.filter fun r => r.1 ≠ t) (some t)) ∧
        Donated { p.settle prio rq w dn with deadlines := d } (fun x => (D x).filter (· ≠ t)) none
          none := by
  obtain ⟨d, h1, h2⟩ := deadlineRemove_spec h.steady.heap hv
  have hm : p.waits.waitMemberCount t ≠ 0 := (h.queued.waiting t hv).2 ⟨hb, by simp⟩
  have hQ₁ : Queued { p with deadlines := d } R Q S none := { h.queued with }
  obtain ⟨w₁, h3, h4, h5⟩ := withdrawWaitSet_spec hQ₁ hv hm already
  have hD₁ : Donated { p with deadlines := d, waits := w₁ } D none (some t) :=
    Donated.withdrawn (p := { p with deadlines := d }) { h.donated with } hl h4
  obtain ⟨p', h6, h7, h8⟩ := dropWaitOwner_spec h5 hD₁ (.inr rfl)
    fun r _ => Quiet.of_blocked hb r
  have hown := h7.own
  have hq := h7.queued
  have hd := h7.donated
  obtain ⟨prio, rq, w, dn, rfl, hF, hr⟩ := h7.moved
  exact ⟨d, w₁, h1, h3, prio, rq, w, dn, h6, h4.frame hF hr, h2, hown, h8, hq, hd⟩

theorem completeWait_spec (h : Sound p R Q S D loose) (hl : loose = none ∨ loose = some t)
    (hv : validThread p t) (hb : p.state t = .blocked) {winner : Option Registration}
    (hw : winner = none ∨ ∃ m, winner = some (t, m) ∧ (t, m) ∈ S) (already : Option QueueRef)
    (result detail : ℕ) (one : Bool) :
    ∃ p', completeWait p t winner already result detail one = (.ok, p') ∧
      Completed p p' t already (winner.map Prod.snd) result detail one ∧
      ∃ R' Q', Sound p' R' Q' (S.filter fun r => r.1 ≠ t) (fun x => (D x).filter (· ≠ t)) none := by
  obtain ⟨d, w₁, h1, h2, prio, rq, w, dn, h3, h4, h5, h6, -, ⟨R', Q', h7⟩, h8⟩ :=
    withdraw_spec h hl hv hb already
  have hm : p.waits.waitMemberCount t ≠ 0 := (h.queued.waiting t hv).2 ⟨hb, by simp⟩
  have howner : dn.waitOwnerSlot t = none := by
    by_contra hne
    obtain ⟨y, hy⟩ := Option.ne_none_iff_exists'.1 hne
    simpa using (h8.owner t y).1 hy
  have hfree : (fun x => (D x).filter (· ≠ t)) t = [] ∨ KernelThreadState.ready ≠ .dead :=
    .inr (by simp)
  obtain ⟨p₁, hp₁⟩ : ∃ p₁ : Pool, p₁ = { p.settle prio rq w dn with
      deadlines := d
      state := update p.state t .ready
      call := if CallWait p t then update p.call t 0 else p.call
      data := update p.data t
        (endData (p.data t) (p.waits.waitMode t) (winner.map Prod.snd) result detail one)
      waitObserver := update p.waitObserver t none
      observed := p.observed ++ notice p t result } := ⟨_, rfl⟩
  have hQ₁ : Queued p₁ R' Q' (S.filter fun r => r.1 ≠ t) (some t) := by
    have := h7.restate (s := .ready) (by simp)
    rw [hp₁]
    exact { this with }
  have hD₁ : Donated p₁ (fun x => (D x).filter (· ≠ t)) none none := by
    have h9 := h8.restate (s := .ready) (.inl howner) hfree
    rw [hp₁]
    split
    · exact { h9.recall howner 0 with }
    · exact { h9 with }
  have hS₁ : Steady p₁ := by
    rw [hp₁]
    refine ⟨h5.shape, fun x hx => ?_, fun x hx hxb => ?_, fun x hx hxb => ?_,
      h4.sequence_pos h.steady.sequence, h.steady.nextSlot⟩
    · obtain ⟨hx, hxt⟩ := (h5.mem x).1 hx
      exact ⟨(h.steady.timed x hx).1, (update_of_ne hxt _ _).trans (h.steady.timed x hx).2⟩
    · rcases eq_or_ne x t with rfl | hxt
      · exact update_self ..
      · simp only [update_of_ne hxt] at hxb ⊢
        exact h.steady.observer x hx hxb
    · refine (congrFun h4.mode x).trans ?_
      rcases eq_or_ne x t with rfl | hxt
      · exact update_self ..
      · simp only [update_of_ne hxt] at hxb ⊢
        exact h.steady.mode x hx hxb
  have hv₁ : validThread p₁ t := by rw [hp₁]; exact hv
  have hs₁ : p₁.state t = .ready := by rw [hp₁]; exact update_self ..
  have hrun : completeWait p t winner already result detail one
      = if p₁.suspended t then (.ok, p₁) else (enqueueReady p₁ t).orCorrupt fun p => (.ok, p) := by
    have hwin : ¬ (winner ≠ none ∧ registrationThread p winner ≠ some t) := by
      rcases hw with rfl | ⟨m, rfl, hS⟩
      · exact fun hn => hn.1 rfl
      · exact fun hn => hn.2 (registrationThread_live h.queued.live hS)
    have hgate : ¬ (¬ validThread p t ∨ p.state t ≠ .blocked ∨ p.waits.waitMemberCount t = 0
        ∨ (winner ≠ none ∧ registrationThread p winner ≠ some t)) := by
      simp only [hv, hb, hm, hwin, not_true, ne_eq, or_self, not_false_iff]
    unfold completeWait
    rw [if_neg hgate]
    simp only [h1, Result.andThen_ok, h2, h3, Result.orCorrupt_ok]
    unfold completeReady
    rw [completeContext_eq, notifyWaitObserver_eq, hp₁]
    by_cases hc : CallWait p t
    · simp only [CallWait] at hc
      simp only [hc, CallWait, and_self, if_true, Pool.settle, notice]
    · have hc' : ¬ (p.waits.waitMode t = .one ∧ (p.waits.row (t, 0)).queue = some (.call t)) := hc
      simp only [hc', CallWait, if_false, Pool.settle, notice]
  have hdone : Completed p p₁ t already (winner.map Prod.snd) result detail one :=
    ⟨prio, rq, w, dn, d, hp₁, h4, h5, h6⟩
  rw [hrun]
  split
  · rename_i hu
    have hoff : Off p₁ t := ⟨by rw [hs₁]; simp, fun _ => hu⟩
    exact ⟨p₁, rfl, hdone, R', Q', hQ₁.leave hoff, hD₁, hS₁⟩
  · rename_i hu
    obtain ⟨rq', R'', h9, h10⟩ := hQ₁.enqueue hv₁ hs₁ (by simpa using hu)
    rw [h9]
    refine ⟨_, rfl, ?_, R'', Q', h10, { hD₁ with }, { hS₁ with }⟩
    subst hp₁
    exact ⟨prio, rq', w, dn, d, rfl, h4, h5, h6⟩

end

end Astra
