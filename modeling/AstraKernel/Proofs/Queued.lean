import AstraKernel.Proofs.Ready
import AstraKernel.Proofs.Wait
import AstraKernel.Proofs.Deadline
import AstraKernel.Thread.Priority

/-!
# Every thread is on the queues its state says

`Queued p R Q S limbo` says that the ready lists `R` hold the ready threads that are not suspended,
each in the list of its effective priority, and that the wait queues `Q` hold the members of the
blocked threads' wait sets, in the order they are served in. The thread in `limbo` has been taken
off its queues and not yet put on others.
-/

namespace Astra

open Function List

structure Queued (p : Pool) (R : ℕ → List Slot) (Q : QueueRef → List Registration)
    (S : Finset Registration) (limbo : Option Slot) : Prop where
  slot : ∀ t, validThread p t → t < p.threadSlots
  slots : p.threadSlots ≤ kernelThreadSlotNone
  ready : ReadyShape p.ready R
  readyMem : ∀ t k, t ∈ R k ↔ validThread p t ∧ p.state t = .ready ∧ p.suspended t = false
    ∧ p.prio.effectivePriority t = k ∧ limbo ≠ some t
  waits : WaitShape p.waits Q S
  linked : ∀ t m, (t, m) ∈ S ↔ validThread p t ∧ m < p.waits.waitMemberCount t
  waiting : ∀ t, validThread p t →
    (p.waits.waitMemberCount t ≠ 0 ↔ p.state t = .blocked ∧ limbo ≠ some t)
  memberMax : ∀ t, validThread p t → p.waits.waitMemberCount t ≤ kernelThreadWaitMemberMax
  row : ∀ t, validThread p t → p.waits.waitMemberCount t ≠ 0 → p.waits.rowAllocated t = true
  served : ∀ q, Served p.prio.effectivePriority (Q q)
  base : ∀ t, validThread p t → p.prio.basePriority t < kernelThreadPriorityLevels
  inherited : ∀ t, validThread p t → p.prio.inheritedPriority t < kernelThreadPriorityLevels
  donated : ∀ t, validThread p t → p.prio.donatedPriority t < kernelThreadPriorityLevels
  effective : ∀ t, validThread p t → p.prio.effectivePriority t = p.prio.effectiveOf t
  known : ∀ t, validThread p t → p.state t ≠ .unused
  callQueue : ∀ s r, r ∈ Q (.call s) → r = (s, 0) ∧ p.waits.waitMode s = .one
  deathQueue : ∀ s r, r ∈ Q (.death s) → validThread p s

theorem throttledBase_le (base : ℕ) (throttled : Bool) : throttledBase base throttled ≤ base := by
  unfold throttledBase
  split_ifs with h
  · exact le_trans (by decide) h.2
  · exact le_rfl

theorem priorityEffective_lt {base inherited donated : ℕ} (throttled : Bool)
    (hb : base < kernelThreadPriorityLevels) (hi : inherited < kernelThreadPriorityLevels)
    (hd : donated < kernelThreadPriorityLevels) :
    priorityEffective base inherited donated throttled < kernelThreadPriorityLevels :=
  max_lt (max_lt ((throttledBase_le base throttled).trans_lt hb) hi) hd

def Pool.move (p : Pool) (prio : PriorityTable) (rq : ReadyQueues) (w : WaitTable) : Pool :=
  { p with prio := prio, ready := rq, waits := w }

def PriorityTable.change (prio : PriorityTable) (t : Slot) (base inherited donatedPriority : ℕ)
    (throttled : Bool) : PriorityTable :=
  (prio.set t base inherited donatedPriority throttled).setEffective t
    (priorityEffective base inherited donatedPriority throttled)

section Change

variable {p : Pool} {R : ℕ → List Slot} {Q : QueueRef → List Registration}
  {S : Finset Registration} {limbo : Option Slot} {t : Slot}

variable {th : Bool} {S' : Finset Registration} {ms : List ℕ} {p' : Pool} {prio : PriorityTable}
  {Q' : QueueRef → List Registration} {w : WaitTable} {b d i : ℕ}

theorem WaitLive.mono (h : WaitLive p S) (hS : S' ⊆ S)
    (ho : p'.occupied = p.occupied) (hr : p'.waits.rowAllocated = p.waits.rowAllocated) :
    WaitLive p' S' := by
  intro r hr'
  unfold validThread
  rw [ho, hr]
  exact h r (hS hr')

theorem Queued.live (h : Queued p R Q S limbo) : WaitLive p S := by
  rintro ⟨t, m⟩ hr
  obtain ⟨hv, hm⟩ := (h.linked t m).1 hr
  exact ⟨hv, h.row t hv (by omega), hm.trans_le (h.memberMax t hv)⟩

theorem Queued.effective_lt (h : Queued p R Q S limbo) (hv : validThread p t) :
    p.prio.effectivePriority t < kernelThreadPriorityLevels := by
  rw [h.effective t hv]
  exact priorityEffective_lt _ (h.base t hv) (h.inherited t hv) (h.donated t hv)

theorem length_ne_max (hs : ∀ t, validThread p' t → t < p'.threadSlots)
    (hb : p'.threadSlots ≤ kernelThreadSlotNone) (h : WaitShape w Q S) (hl : WaitLive p' S)
    (q : QueueRef) : (Q q).length ≠ uint32Max := by
  have h1 := h.length_le q
  have h2 := WaitShape.card_le hl hs
  have h3 : p'.threadSlots * kernelThreadWaitMemberMax ≤ 65535 * 255 := Nat.mul_le_mul hb le_rfl
  have h4 : 65535 * 255 < uint32Max := by decide
  exact fun he => by omega

/-- The registrations that a loop over `t`'s members still has before it, and every other
thread's. -/
def keeps (t : Slot) (rest : List ℕ) (r : Registration) : Bool :=
  r.1 = t → r.2 ∈ rest

theorem filter_keeps_cons (t : Slot) {a : ℕ} {as : List ℕ} (ha : a ∉ as) (l : List Registration) :
    ((l.filter (keeps t (a :: as))).filter (· ≠ (t, a))) = l.filter (keeps t as) := by
  rw [filter_filter]
  refine filter_congr fun r _ => ?_
  obtain ⟨s, m⟩ := r
  by_cases hs : s = t
  · by_cases hm : m = a
    · simp [keeps, hs, hm, ha]
    · simp [keeps, hs, hm]
  · simp [keeps, hs]

variable (body : Pool → ℕ → Result)

theorem forEach_remove_spec (hw : WaitShape p.waits Q S) (hl : WaitLive p S)
    (hbody : ∀ p' m w, (p'.waits.row (t, m)).queue ≠ none →
      removeWaitRegistration p' (t, m) = (.ok, { p' with waits := w }) →
        body p' m = (.ok, { p' with waits := w }))
    (hn : ms.Nodup) (hms : ∀ m, (t, m) ∈ S ↔ m ∈ ms) :
    ∃ w, forEach body p ms = (.ok, { p with waits := w }) ∧ p.waits.Frame w ∧
      WaitShape w (fun q => (Q q).filter fun r => r.1 ≠ t) (S.filter fun r => r.1 ≠ t) := by
  have hmain : ∀ (as : List ℕ) (w : WaitTable), as.Nodup → (∀ m ∈ as, (t, m) ∈ S) →
      p.waits.Frame w →
      WaitShape w (fun q => (Q q).filter (keeps t as)) (S.filter fun r => keeps t as r) →
      ∃ w', forEach body { p with waits := w } as = (.ok, { p with waits := w' })
        ∧ p.waits.Frame w' ∧
        WaitShape w' (fun q => (Q q).filter (keeps t [])) (S.filter fun r => keeps t [] r) := by
    intro as
    induction as with
    | nil => exact fun w _ _ hf hs => ⟨w, rfl, hf, hs⟩
    | cons a as ih =>
      intro w hna hmem hf hs
      obtain ⟨ha, has⟩ := nodup_cons.1 hna
      have hr : (t, a) ∈ S.filter fun r => keeps t (a :: as) r :=
        Finset.mem_filter.2 ⟨hmem a mem_cons_self, by simp [keeps]⟩
      have hl' : WaitLive { p with waits := w } (S.filter fun r => keeps t (a :: as) r) :=
        hl.mono (Finset.filter_subset _ _) rfl hf.rowAllocated
      obtain ⟨w', he, hf', hs'⟩ := removeWaitRegistration_spec hs hl' hr
      obtain ⟨q, hq, -⟩ := hs.exists_queue hr
      have hS : (S.filter fun r => keeps t (a :: as) r).erase (t, a)
          = S.filter fun r => keeps t as r := by
        ext ⟨s, m⟩
        by_cases hst : s = t
        · by_cases hma : m = a
          · simp [keeps, hst, hma, ha]
          · simp [keeps, hst, hma]
        · simp [keeps, hst]
      simp only [filter_keeps_cons t ha, hS] at hs'
      obtain ⟨w'', he', hf'', hs''⟩ :=
        ih w' has (fun m hm => hmem m (mem_cons_of_mem _ hm)) (hf.trans hf') hs'
      refine ⟨w'', ?_, hf'', hs''⟩
      rw [forEach, hbody { p with waits := w } a w' (by rw [hq]; simp) he, Result.andThen_ok]
      exact he'
  have hstart : (fun q => (Q q).filter (keeps t ms)) = Q := by
    funext q
    refine filter_eq_self.2 fun r hr => ?_
    obtain ⟨s, m⟩ := r
    have := hw.mem hr
    by_cases hs : s = t
    · subst hs
      simpa [keeps] using (hms m).1 this
    · simp [keeps, hs]
  have hstartS : (S.filter fun r => keeps t ms r) = S := by
    refine Finset.filter_eq_self.2 fun r hr => ?_
    obtain ⟨s, m⟩ := r
    by_cases hs : s = t
    · subst hs
      simpa [keeps] using (hms m).1 hr
    · simp [keeps, hs]
  have hend : (fun r : Registration => keeps t [] r) = fun r => decide (r.1 ≠ t) := by
    funext r
    simp [keeps]
  obtain ⟨w, he, hf, hs⟩ := hmain ms p.waits hn (fun m hm => (hms m).2 hm) (.refl _)
    (by rw [hstart, hstartS]; exact hw)
  refine ⟨w, he, hf, ?_⟩
  have : keeps t [] = fun r => decide (r.1 ≠ t) := hend
  simpa only [this, decide_eq_true_eq] using hs

theorem forEach_enqueue_spec
    (queues : ℕ → Option QueueRef) (hs : ∀ t, validThread p t → t < p.threadSlots)
    (hb : p.threadSlots ≤ kernelThreadSlotNone) (hw : WaitShape p.waits Q' S') (hl : WaitLive p S)
    (hv : validThread p t) (hst : p.state t = .blocked) (hrow : p.waits.rowAllocated t = true)
    (hserved : ∀ q, Served p.prio.effectivePriority (Q' q))
    (hbody : ∀ p' m q w, queues m = some q →
      enqueueWaitRegistration p' t m q = (.ok, { p' with waits := w }) →
        body p' m = (.ok, { p' with waits := w }))
    (hn : ms.Nodup) (hq : ∀ m ∈ ms, ∃ q, queues m = some q)
    (hm : ∀ m ∈ ms, m < p.waits.waitMemberCount t ∧ m < kernelThreadWaitMemberMax)
    (hS : ∀ r, r ∈ S ↔ r ∈ S' ∨ r.1 = t ∧ r.2 ∈ ms) (hS' : ∀ m ∈ ms, (t, m) ∉ S') :
    ∃ w Q'', forEach body p ms = (.ok, { p with waits := w }) ∧ p.waits.Frame w ∧
      WaitShape w Q'' S ∧ (∀ q, Served p.prio.effectivePriority (Q'' q)) ∧
      ∀ q r, r ∈ Q'' q ↔ r ∈ Q' q ∨ r.1 = t ∧ r.2 ∈ ms ∧ queues r.2 = some q := by
  have hmain : ∀ (as : List ℕ) (w : WaitTable) (Q₁ : QueueRef → List Registration)
      (S₁ : Finset Registration), as.Nodup → (∀ m ∈ as, m ∈ ms) → p.waits.Frame w →
      WaitShape w Q₁ S₁ → S₁ ⊆ S → (∀ m ∈ as, (t, m) ∉ S₁) →
      (∀ q, Served p.prio.effectivePriority (Q₁ q)) →
      ∃ w' Q₂, forEach body { p with waits := w } as = (.ok, { p with waits := w' })
        ∧ p.waits.Frame w' ∧ (∀ q, Served p.prio.effectivePriority (Q₂ q))
        ∧ (∀ q r, r ∈ Q₂ q ↔ r ∈ Q₁ q ∨ r.1 = t ∧ r.2 ∈ as ∧ queues r.2 = some q)
        ∧ ∃ S₂, WaitShape w' Q₂ S₂ := by
    intro as
    induction as with
    | nil => exact fun w Q₁ S₁ _ _ hf h₁ _ _ hsv => ⟨w, Q₁, rfl, hf, hsv, by simp, S₁, h₁⟩
    | cons a as ih =>
      intro w Q₁ S₁ hna hsub hf h₁ hle hout hsv
      obtain ⟨ha, has⟩ := nodup_cons.1 hna
      have ham := hsub a mem_cons_self
      obtain ⟨q, hqa⟩ := hq a ham
      have hl₁ : WaitLive { p with waits := w } S₁ := hl.mono hle rfl hf.rowAllocated
      obtain ⟨w', he, hf', h₂⟩ := enqueueWaitRegistration_spec (p := { p with waits := w }) h₁ hl₁
        hv hst (by simpa only [hf.members] using (hm a ham).1)
        (by simpa only [hf.rowAllocated] using hrow) (hm a ham).2 (hout a mem_cons_self)
        (length_ne_max hs hb h₁ (hl.mono hle rfl rfl) q)
      have hta : (t, a) ∈ S := (hS _).2 (.inr ⟨rfl, ham⟩)
      have hmem : ∀ j r, r ∈ update Q₁ q (serveAfter p.prio.effectivePriority (t, a) (Q₁ q)) j
          ↔ (r = (t, a) ∧ j = q) ∨ r ∈ Q₁ j := by
        intro j r
        rcases eq_or_ne j q with rfl | hj
        · simp [mem_serveAfter]
        · simp [hj]
      obtain ⟨w'', Q₂, he', hf'', hsv', hmem', S₂, hs₂⟩ := ih w'
        (update Q₁ q (serveAfter p.prio.effectivePriority (t, a) (Q₁ q))) (insert (t, a) S₁) has
        (fun m hm' => hsub m (mem_cons_of_mem _ hm')) (hf.trans hf') h₂
        (Finset.insert_subset hta hle)
        (fun m hm' => by
          rw [Finset.mem_insert, not_or]
          refine ⟨fun he => ?_, hout m (mem_cons_of_mem _ hm')⟩
          obtain rfl : m = a := congrArg Prod.snd he
          exact ha hm')
        (fun j => by
          rcases eq_or_ne j q with rfl | hj
          · rw [update_self]
            exact (hsv _).serveAfter
          · rw [update_of_ne hj]
            exact hsv j)
      refine ⟨w'', Q₂, ?_, hf'', hsv', fun j r => ?_, S₂, hs₂⟩
      · rw [forEach, hbody _ a q w' hqa he, Result.andThen_ok]
        exact he'
      · rw [hmem', hmem]
        obtain ⟨s, m⟩ := r
        grind
  obtain ⟨w, Q'', he, hf, hsv, hmem, S'', hs''⟩ := hmain ms p.waits Q' S' hn (fun _ h => h) (.refl _)
    hw (fun r hr => (hS r).2 (.inl hr)) hS' hserved
  refine ⟨w, Q'', he, hf, ?_, hsv, hmem⟩
  have hSS : S'' = S := by
    ext r
    rw [hs''.linked, hS, hw.linked]
    simp only [hmem]
    constructor
    · rintro ⟨q, hr | ⟨h1, h2, -⟩⟩
      · exact .inl ⟨q, hr⟩
      · exact .inr ⟨h1, h2⟩
    · rintro (⟨q, hr⟩ | ⟨h1, h2⟩)
      · exact ⟨q, .inl hr⟩
      · obtain ⟨q, hqm⟩ := hq r.2 h2
        exact ⟨q, .inr ⟨h1, h2, hqm⟩⟩
  exact hSS ▸ hs''

theorem PriorityTable.change_effective (prio : PriorityTable) (x : Slot) (b i d : ℕ) (th : Bool) :
    (prio.change t b i d th).effectivePriority x
      = if x = t then priorityEffective b i d th else prio.effectivePriority x :=
  update_apply ..

section

variable (h : Queued p R Q S limbo)
include h

section

variable (hv : validThread p t)
include hv

section

variable (hb : b < kernelThreadPriorityLevels)
include hb

section

variable (hi : i < kernelThreadPriorityLevels)
include hi

section

variable (hd : d < kernelThreadPriorityLevels)
include hd

theorem Queued.moved {rq : ReadyQueues} {R' : ℕ → List Slot} (hR : ReadyShape rq R')
    (hRm : ∀ x k, x ∈ R' k ↔ x ≠ t ∧ x ∈ R k ∨ x = t ∧ p.state t = .ready
      ∧ p.suspended t = false ∧ limbo ≠ some t ∧ priorityEffective b i d th = k)
    (hW : WaitShape w Q' S)
    (hF : p.waits.Frame w) (hQ : ∀ q r, r ∈ Q' q ↔ r ∈ Q q)
    (hsv : ∀ q, Served (p.prio.change t b i d th).effectivePriority (Q' q)) :
    Queued (p.move (p.prio.change t b i d th) rq w) R' Q' S limbo := by
  have hupd : ∀ {f : Slot → ℕ} {v : ℕ}, (∀ x, validThread p x → f x < kernelThreadPriorityLevels) →
      v < kernelThreadPriorityLevels → ∀ x, validThread p x → update f t v x
        < kernelThreadPriorityLevels := by
    intro f v hf hv x hx
    rw [update_apply]
    split_ifs
    · exact hv
    · exact hf x hx
  refine ⟨h.slot, h.slots, hR, fun x k => ?_, hW, fun x m => ?_, fun x hx => ?_, fun x hx => ?_,
    fun x hx => ?_, hsv, hupd h.base hb, hupd h.inherited hi, hupd h.donated hd, fun x hx => ?_,
    h.known, fun s r hr => ?_, fun s r hr => ?_⟩
  · rw [hRm]
    by_cases hx : x = t
    · subst hx
      simp only [ne_eq, not_true, false_and, true_and, false_or, Pool.move,
        PriorityTable.change_effective, if_true]
      exact ⟨fun ⟨h1, h2, h3, h4⟩ => ⟨hv, h1, h2, h4, h3⟩, fun ⟨_, h1, h2, h4, h3⟩ => ⟨h1, h2, h3, h4⟩⟩
    · simp only [ne_eq, hx, not_false_iff, true_and, false_and, or_false, Pool.move,
        PriorityTable.change_effective, if_false]
      exact h.readyMem x k
  · simp only [Pool.move, hF.members]
    exact h.linked x m
  · simp only [Pool.move, hF.members]
    exact h.waiting x hx
  · simp only [Pool.move, hF.members]
    exact h.memberMax x hx
  · simp only [Pool.move, hF.members, hF.rowAllocated]
    exact h.row x hx
  · by_cases hxt : x = t
    · subst hxt
      simp [Pool.move, PriorityTable.change, PriorityTable.setEffective, PriorityTable.set,
        PriorityTable.effectiveOf]
    · have := h.effective x hx
      simpa [Pool.move, PriorityTable.change, PriorityTable.setEffective, PriorityTable.set,
        PriorityTable.effectiveOf, hxt] using this
  · simp only [Pool.move, hF.mode]
    exact h.callQueue s r ((hQ _ _).1 hr)
  · exact h.deathQueue s r ((hQ _ _).1 hr)

theorem changeMove_idle
    (hr : ¬ (p.state t = .ready ∧ p.suspended t = false)) (hw : p.waits.waitMemberCount t = 0) :
    changeMove p t b i d th = (.ok, p.move (p.prio.change t b i d th) p.ready p.waits) ∧
      Queued (p.move (p.prio.change t b i d th) p.ready p.waits) R Q S limbo := by
  refine ⟨?_, h.moved hv hb hi hd h.ready (fun x k => ?_) h.waits (.refl _) (fun _ _ => Iff.rfl)
    fun q => ?_⟩
  · unfold changeMove
    simp only [hr, if_false, hw, ite_self, range_zero, Result.orCorrupt_ok, forEach,
      PriorityTable.change, Pool.move]
  · by_cases hx : x = t
    · subst hx
      have hn : x ∉ R k := fun hm => hr ⟨((h.readyMem x k).1 hm).2.1, ((h.readyMem x k).1 hm).2.2.1⟩
      simp only [hn, ne_eq, not_true, false_and, true_and, false_or, false_iff]
      rintro ⟨h1, h2, -⟩
      exact hr ⟨h1, h2⟩
    · simp [hx]
  · refine (h.served q).congr fun r hm => ?_
    have hne : r.1 ≠ t := by
      rintro rfl
      have := ((h.linked r.1 r.2).1 (h.waits.mem hm)).2
      omega
    rw [PriorityTable.change_effective, if_neg hne]

theorem changeMove_ready
    (hr : p.state t = .ready) (hu : p.suspended t = false)
    (hlim : limbo ≠ some t) :
    ∃ rq R', changeMove p t b i d th = (.ok, p.move (p.prio.change t b i d th) rq p.waits) ∧
      Queued (p.move (p.prio.change t b i d th) rq p.waits) R' Q S limbo := by
  have hmem : ∀ x k, x ∈ R k → validThread p x ∧ p.state x = .ready := fun x k hx =>
    ⟨((h.readyMem x k).1 hx).1, ((h.readyMem x k).1 hx).2.1⟩
  have htR : t ∈ R (p.prio.effectivePriority t) := (h.readyMem t _).2 ⟨hv, hr, hu, rfl, hlim⟩
  obtain ⟨rq₁, he₁, hs₁⟩ := removeReady_spec h.ready hv hr htR fun s hs => (hmem s _ hs).1
  have hcount : p.waits.waitMemberCount t = 0 := by
    by_contra hne
    have := ((h.waiting t hv).1 hne).1
    rw [hr] at this
    exact absurd this (by simp)
  obtain ⟨p₁, hp₁⟩ : ∃ p₁, p₁ = p.move (p.prio.change t b i d th) rq₁ p.waits := ⟨_, rfl⟩
  have hlt := priorityEffective_lt th hb hi hd
  have heff : p₁.prio.effectivePriority t = priorityEffective b i d th := by
    rw [hp₁]
    simp [Pool.move, PriorityTable.change_effective]
  have hs₁' : ReadyShape p₁.ready fun k => (R k).filter (· ≠ t) := by rw [hp₁]; exact hs₁
  obtain ⟨rq₂, he₂, hs₂⟩ := enqueueReady_spec hs₁' (by rw [hp₁]; exact hv) (by rw [hp₁]; exact hr)
    (by rw [hp₁]; exact hu) (by rw [heff]; exact hlt) (by simp)
    (fun k s hs => by rw [hp₁]; exact hmem s k (mem_filter.1 hs).1)
  rw [heff] at hs₂
  refine ⟨rq₂, _, ?_, h.moved hv hb hi hd hs₂ (fun x k => ?_) h.waits (.refl _)
    (fun _ _ => Iff.rfl) fun q => ?_⟩
  · unfold changeMove
    simp only [hr, hu, and_self, if_true, he₁, Result.orCorrupt_ok, hcount, ite_self,
      range_zero, forEach]
    have : enqueueReady { p with
        prio := (p.prio.set t b i d th).setEffective t (priorityEffective b i d th)
        ready := rq₁ } t = (.ok, { p₁ with ready := rq₂ }) := by
      rw [← he₂, hp₁]
      rfl
    rw [this, Result.orCorrupt_ok, hp₁]
    rfl
  · rcases eq_or_ne k (priorityEffective b i d th) with rfl | hk
    · simp only [update_self, mem_append, mem_filter, decide_eq_true_eq,
        mem_singleton, hr, hu, hlim, ne_eq, not_false_iff, true_and, and_true, and_comm]
    · simp [hk, Ne.symm hk, and_comm]
  · refine (h.served q).congr fun r hm => ?_
    have hne : r.1 ≠ t := by
      rintro rfl
      have := ((h.linked r.1 r.2).1 (h.waits.mem hm)).2
      omega
    rw [PriorityTable.change_effective, if_neg hne]

theorem changeMove_blocked (hst : p.state t = .blocked) (hcount : p.waits.waitMemberCount t ≠ 0) :
    ∃ w Q', changeMove p t b i d th = (.ok, p.move (p.prio.change t b i d th) p.ready w) ∧
      p.waits.Frame w ∧ Queued (p.move (p.prio.change t b i d th) p.ready w) R Q' S limbo ∧
      ∀ q r, r ∈ Q' q ↔ r ∈ Q q := by
  obtain ⟨n, hn⟩ : ∃ n, n = p.waits.waitMemberCount t := ⟨_, rfl⟩
  have hmem : ∀ m, (t, m) ∈ S ↔ m ∈ List.range n := fun m => by
    rw [h.linked, mem_range, hn]
    exact and_iff_right hv
  obtain ⟨w₁, he₁, hf₁, hs₁⟩ := forEach_remove_spec (changeRemove t) h.waits h.live
    (fun p' m w hq he => by rw [changeRemove, if_neg hq, he, Result.orCorrupt_ok])
    nodup_range hmem
  obtain ⟨p₁, hp₁⟩ : ∃ p₁, p₁ = p.move (p.prio.change t b i d th) p.ready w₁ := ⟨_, rfl⟩
  have hw₁ : p₁.waits = w₁ := by rw [hp₁]; rfl
  have hne : ∀ {q : QueueRef} {r : Registration}, r ∈ (Q q).filter (fun r => r.1 ≠ t) →
      p₁.prio.effectivePriority r.1 = p.prio.effectivePriority r.1 := by
    intro q r hr
    have hr' : r.1 ≠ t := by simpa using (mem_filter.1 hr).2
    rw [hp₁]
    simp [Pool.move, PriorityTable.change_effective, hr']
  have hqueue : ∀ m ∈ List.range n, ∃ q, (p.waits.row (t, m)).queue = some q := fun m hm => by
    obtain ⟨q, hq, -⟩ := h.waits.exists_queue ((hmem m).2 hm)
    exact ⟨q, hq⟩
  obtain ⟨w₂, Q', he₂, hf₂, hs₂, hsv, hQ'⟩ := forEach_enqueue_spec (p := p₁) (S := S) (t := t)
    (changeEnqueue t fun m => (p.waits.row (t, m)).queue)
    (fun m => (p.waits.row (t, m)).queue)
    (by rw [hp₁]; exact h.slot) (by rw [hp₁]; exact h.slots) (by rw [hw₁]; exact hs₁)
    (h.live.mono (fun _ hr => hr) (by rw [hp₁]; rfl) (by rw [hw₁, hf₁.rowAllocated]))
    (by rw [hp₁]; exact hv) (by rw [hp₁]; exact hst)
    (by rw [hw₁, hf₁.rowAllocated]; exact h.row t hv hcount)
    (fun q => ((h.served q).filter _).congr fun r hr => hne hr)
    (fun p' m q w hq he => by simp only [changeEnqueue, hq, he, Result.orCorrupt_ok])
    nodup_range hqueue
    (fun m hm => by
      rw [hw₁, hf₁.members, ← hn]
      have := mem_range.1 hm
      exact ⟨this, this.trans_le (hn ▸ h.memberMax t hv)⟩)
    (fun r => by
      rw [Finset.mem_filter]
      obtain ⟨s, m⟩ := r
      by_cases hs : s = t
      · subst hs
        simp [hmem]
      · simp [hs])
    (fun m _ => by simp)
  have hQ : ∀ q r, r ∈ Q' q ↔ r ∈ Q q := by
    rintro q ⟨s, m⟩
    rw [hQ', mem_filter]
    by_cases hs : s = t
    · subst hs
      simp only [ne_eq, not_true, decide_false, Bool.false_eq_true, and_false, true_and, false_or,
        h.waits.queued]
      exact ⟨And.right, fun hq => ⟨(hmem m).1 (h.waits.mem hq), hq⟩⟩
    · simp [hs]
  have hf : p.waits.Frame w₂ := hf₁.trans (hw₁ ▸ hf₂)
  refine ⟨w₂, Q', ?_, hf, h.moved hv hb hi hd h.ready (fun x k => ?_) hs₂ hf hQ (fun q => ?_), hQ⟩
  · unfold changeMove
    simp only [hst, reduceCtorEq, false_and, if_false, if_true, Result.orCorrupt_ok, ← hn, he₁]
    have : ({ p with
        prio := (p.prio.set t b i d th).setEffective t (priorityEffective b i d th)
        waits := w₁ } : Pool) = p₁ := by
      rw [hp₁]
      rfl
    rw [this, he₂, hp₁]
    rfl
  · by_cases hx : x = t
    · subst hx
      have hnR : x ∉ R k := fun hm => by
        have := ((h.readyMem x k).1 hm).2.1
        rw [hst] at this
        exact absurd this (by simp)
      simp [hnR, hst]
    · simp [hx]
  · have := hsv q
    rwa [hp₁] at this

end

end

end

end

end

theorem PriorityTable.change_self {t : Slot}
    (he : prio.effectivePriority t = priorityEffective b i d th) :
    prio.change t b i d th = prio.set t b i d th := by
  simp only [PriorityTable.change, PriorityTable.setEffective, ← he]
  simp [PriorityTable.set]

theorem PriorityTable.set_self {t : Slot} :
    prio.set t (prio.basePriority t) (prio.inheritedPriority t) (prio.donatedPriority t)
      (prio.budgetThrottled t) = prio := by
  simp [PriorityTable.set]

theorem changePriority_spec (h : Queued p R Q S limbo) (hv : validThread p t)
    (hdead : p.state t ≠ .dead) (hb : b < kernelThreadPriorityLevels)
    (hi : i < kernelThreadPriorityLevels) (hd : d < kernelThreadPriorityLevels)
    (hlim : limbo = some t → p.state t = .ready → p.suspended t = false →
      p.prio.effectivePriority t = priorityEffective b i d th) :
    ∃ rq w R' Q',
      changePriority p t b i d th = (.ok, p.move (p.prio.change t b i d th) rq w) ∧
      p.waits.Frame w ∧ Queued (p.move (p.prio.change t b i d th) rq w) R' Q' S limbo ∧
      ∀ q r, r ∈ Q' q ↔ r ∈ Q q := by
  have hcorrupt : ¬ priorityCorrupt p t := by
    unfold priorityCorrupt
    have h1 := h.base t hv
    have h2 := h.inherited t hv
    have h3 := h.donated t hv
    have h4 := h.known t hv
    simp only [not_or, not_le, h.effective t hv, not_not, ne_eq]
    refine ⟨?_, h1, h2, h3, trivial⟩
    rcases hs : p.state t <;> simp_all
  unfold changePriority
  rw [if_neg (by simp [hv, hb, hi, hd]), if_neg hdead, if_neg hcorrupt]
  by_cases heff : p.prio.effectivePriority t = priorityEffective b i d th
  · have hQ : Queued (p.move (p.prio.change t b i d th) p.ready p.waits) R Q S limbo := by
      have hE : (p.prio.change t b i d th).effectivePriority = p.prio.effectivePriority := by
        rw [PriorityTable.change_self heff]
        rfl
      refine h.moved hv hb hi hd h.ready (fun x k => ?_) h.waits (.refl _) (fun _ _ => Iff.rfl)
        fun q => by rw [hE]; exact h.served q
      by_cases hx : x = t
      · subst hx
        simp only [h.readyMem, ne_eq, not_true, false_and, true_and, false_or, hv, heff]
        tauto
      · simp [hx]
    refine ⟨p.ready, p.waits, R, Q, ?_, .refl _, hQ, fun _ _ => Iff.rfl⟩
    rw [PriorityTable.change_self heff]
    split_ifs with hsame
    · obtain ⟨rfl, rfl, rfl, rfl⟩ := hsame
      rw [PriorityTable.set_self]
      rfl
    · rfl
  · rw [if_neg, if_neg heff]
    · by_cases hr : p.state t = .ready ∧ p.suspended t = false
      · obtain ⟨rq, R', h1, h2⟩ := changeMove_ready h hv hb hi hd hr.1 hr.2
          fun hl => heff (hlim hl hr.1 hr.2)
        exact ⟨rq, p.waits, R', Q, h1, .refl _, h2, fun _ _ => Iff.rfl⟩
      · by_cases hc : p.waits.waitMemberCount t = 0
        · obtain ⟨h1, h2⟩ := changeMove_idle h hv hb hi hd hr hc
          exact ⟨p.ready, p.waits, R, Q, h1, .refl _, h2, fun _ _ => Iff.rfl⟩
        · obtain ⟨w, Q', h1, h2, h3, h4⟩ := changeMove_blocked h hv hb hi hd
            ((h.waiting t hv).1 hc).1 hc
          exact ⟨p.ready, w, R, Q', h1, h2, h3, h4⟩
    · rintro ⟨rfl, rfl, rfl, rfl⟩
      exact heff (h.effective t hv)

end Change

end Astra
