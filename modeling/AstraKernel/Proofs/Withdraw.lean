import AstraKernel.Proofs.Donated
import AstraKernel.Thread.Wake

/-!
# Withdrawing a wait set, and making a thread ready

`withdraw_wait_set` takes a thread off every queue of its set and advances each of them once, except
the one that has advanced already. It is then in limbo until it is made ready.
-/

namespace Astra

open Function List

/-- The queues of a thread's wait set. -/
def WaitsOn (w : WaitTable) (t : Slot) (q : QueueRef) : Prop :=
  ∃ m < w.waitMemberCount t, (w.row (t, m)).queue = some q

structure Advanced (w w' : WaitTable) (A : QueueRef → Prop) : Prop where
  row : w'.row = w.row
  rowAllocated : w'.rowAllocated = w.rowAllocated
  each : w'.waitRegistrationCount = w.waitRegistrationCount
  members : w'.waitMemberCount = w.waitMemberCount
  mode : w'.waitMode = w.waitMode
  total : w'.registrationCount = w.registrationCount
  header : ∀ q, (w'.queue q).head = (w.queue q).head ∧ (w'.queue q).tail = (w.queue q).tail
    ∧ (w'.queue q).count = (w.queue q).count
  advanced : ∀ q, A q → (w'.queue q).sequence = kernelGenerationNext (w.queue q).sequence
  kept : ∀ q, ¬ A q → (w'.queue q).sequence = (w.queue q).sequence

variable {A B : QueueRef → Prop} {w w' : WaitTable}

theorem Advanced.refl (w : WaitTable) (hA : ∀ q, ¬ A q) : Advanced w w A :=
  ⟨rfl, rfl, rfl, rfl, rfl, rfl, fun _ => ⟨rfl, rfl, rfl⟩, fun q hq => absurd hq (hA q),
    fun _ _ => rfl⟩

theorem Advanced.advance (h : Advanced w w' A)
    {queue : QueueRef} (hq : ¬ A queue) (hB : ∀ q, B q ↔ A q ∨ q = queue) :
    Advanced w (w'.advance queue) B := by
  refine ⟨h.row, h.rowAllocated, h.each, h.members, h.mode, h.total, fun q => ?_, fun q hBq => ?_,
    fun q hBq => ?_⟩
  · rcases eq_or_ne q queue with rfl | hne
    · simp [WaitTable.advance, WaitTable.setQueue, h.header]
    · simp [WaitTable.advance, WaitTable.setQueue, hne, h.header]
  · rcases eq_or_ne q queue with rfl | hne
    · simp [WaitTable.advance, WaitTable.setQueue, h.kept q hq]
    · have hA : A q := ((hB q).1 hBq).resolve_right hne
      simp [WaitTable.advance, WaitTable.setQueue, hne, h.advanced q hA]
  · have hne : q ≠ queue := fun he => hBq ((hB q).2 (.inr he))
    have hA : ¬ A q := fun ha => hBq ((hB q).2 (.inl ha))
    simp [WaitTable.advance, WaitTable.setQueue, hne, h.kept q hA]

theorem Advanced.congr (h : Advanced w w' A) (hAB : ∀ q, A q ↔ B q) : Advanced w w' B :=
  { h with
    advanced := fun q hq => h.advanced q ((hAB q).2 hq)
    kept := fun q hq => h.kept q fun ha => hq ((hAB q).1 ha) }

theorem WaitShape.advanced
    {Q : QueueRef → List Registration} {S : Finset Registration} (h : WaitShape w Q S)
    (ha : Advanced w w' A) : WaitShape w' Q S := by
  have hl := h.lists
  refine ⟨⟨hl.nodup, hl.disjoint, fun q => ?_, fun q => ?_, fun r hr => ?_⟩, fun q => ?_,
    fun r q => ?_, fun q => ?_, h.linked, ?_, fun t => ?_⟩
  · rw [(ha.header q).1, hl.head]
  · rw [ha.row]
    exact hl.linked q
  · rw [ha.row]
    exact hl.off r hr
  · rw [(ha.header q).2.1, h.tail]
  · rw [ha.row]
    exact h.queued r q
  · rw [(ha.header q).2.2, h.count]
  · rw [ha.total, h.total]
  · rw [ha.each, h.each]

theorem Queued.advanced {p : Pool} {R : ℕ → List Slot} {Q : QueueRef → List Registration}
    {S : Finset Registration} {limbo : Option Slot} (h : Queued p R Q S limbo) (ha : Advanced p.waits w A) : Queued { p with waits := w } R Q S limbo := by
  refine { h with
    waits := h.waits.advanced ha, linked := fun t m => ?_, waiting := fun t hv => ?_,
    memberMax := fun t hv => ?_, row := fun t hv => ?_, callQueue := fun s r hr => ?_ }
  · simp only [ha.members]
    exact h.linked t m
  · simp only [ha.members]
    exact h.waiting t hv
  · simp only [ha.members]
    exact h.memberMax t hv
  · simp only [ha.members, ha.rowAllocated]
    exact h.row t hv
  · simp only [ha.mode]
    exact h.callQueue s r hr

section Withdraw

variable {p : Pool} {R : ℕ → List Slot} {Q : QueueRef → List Registration}
  {S : Finset Registration} {t : Slot}

theorem withdrawAdvance_spec (hQ : Queued p R Q S none) (hv : validThread p t)
    (already : Option QueueRef) : ∀ (n k : ℕ) (w : WaitTable),
      k + n = p.waits.waitMemberCount t →
      Advanced p.waits w (fun q => some q ≠ already ∧ ∃ m < k, (p.waits.row (t, m)).queue = some q) →
      ∃ w', forEach (withdrawAdvance t already true) { p with waits := w } (List.range' k n)
          = (.ok, { p with waits := w' }) ∧
        Advanced p.waits w' fun q => some q ≠ already ∧ WaitsOn p.waits t q
  | 0, k, w, hk, ha => by
    refine ⟨w, rfl, ha.congr fun q => ?_⟩
    rw [WaitsOn, ← hk, Nat.add_zero]
  | n + 1, k, w, hk, ha => by
    obtain ⟨queue, hq, -⟩ := hQ.waits.exists_queue ((hQ.linked t k).2 ⟨hv, by omega⟩)
    have hQw := hQ.advanced ha
    have hstep : ∃ w', withdrawAdvance t already true { p with waits := w } k
          = (.ok, { p with waits := w' }) ∧ Advanced p.waits w'
            fun q => some q ≠ already ∧ ∃ m < k + 1, (p.waits.row (t, m)).queue = some q := by
      have hlt : ∀ q, (∃ m < k + 1, (p.waits.row (t, m)).queue = some q) ↔
          (∃ m < k, (p.waits.row (t, m)).queue = some q) ∨ queue = q := by
        intro q
        constructor
        · rintro ⟨m, hm, hmq⟩
          rcases Nat.lt_succ_iff_lt_or_eq.1 hm with hm | rfl
          · exact .inl ⟨m, hm, hmq⟩
          · exact .inr (Option.some.inj (hq.symm.trans hmq))
        · rintro (⟨m, hm, hmq⟩ | rfl)
          · exact ⟨m, by omega, hmq⟩
          · exact ⟨k, by omega, hq⟩
      unfold withdrawAdvance
      simp only [ha.row, hq, mem_range]
      by_cases hseen : some queue = already ∨ ∃ m < k, (p.waits.row (t, m)).queue = some queue
      · rw [if_pos hseen]
        refine ⟨w, rfl, ha.congr fun q => ?_⟩
        rw [hlt]
        constructor
        · exact fun ⟨h1, h2⟩ => ⟨h1, .inl h2⟩
        · rintro ⟨h1, h2 | rfl⟩
          · exact ⟨h1, h2⟩
          · exact ⟨h1, hseen.resolve_left h1⟩
      · rw [if_neg hseen, if_neg (by simp [validWaitQueueHeader_of hQw.waits hQw.live queue])]
        refine ⟨_, rfl, ha.advance (fun h => hseen (.inr h.2)) fun q => ?_⟩
        rw [hlt]
        have hne : some queue ≠ already := fun he => hseen (.inl he)
        constructor
        · rintro ⟨h1, h2 | rfl⟩
          · exact .inl ⟨h1, h2⟩
          · exact .inr rfl
        · rintro (⟨h1, h2⟩ | rfl)
          · exact ⟨h1, .inl h2⟩
          · exact ⟨hne, .inr rfl⟩
    obtain ⟨w₁, h1, h2⟩ := hstep
    obtain ⟨w', h3, h4⟩ := withdrawAdvance_spec hQ hv already n (k + 1) w₁ (by omega) h2
    refine ⟨w', ?_, h4⟩
    rw [range'_succ, forEach, h1, Result.andThen_ok]
    exact h3

structure Withdrawn (w w' : WaitTable) (t : Slot) (already : Option QueueRef) : Prop where
  rowAllocated : w'.rowAllocated = w.rowAllocated
  members : w'.waitMemberCount = update w.waitMemberCount t 0
  mode : w'.waitMode = update w.waitMode t .none
  rows : ∀ r, (w'.row r).queue = if r.1 = t then none else (w.row r).queue
  advanced : ∀ q, some q ≠ already → WaitsOn w t q →
    (w'.queue q).sequence = kernelGenerationNext (w.queue q).sequence
  kept : ∀ q, some q = already ∨ ¬ WaitsOn w t q → (w'.queue q).sequence = (w.queue q).sequence

theorem withdrawWaitSet_spec (hQ : Queued p R Q S none) (hv : validThread p t)
    (hm : p.waits.waitMemberCount t ≠ 0) (already : Option QueueRef) :
    ∃ w, withdrawWaitSet p t already true = (.ok, { p with waits := w }) ∧
      Withdrawn p.waits w t already ∧
      Queued { p with waits := w } R (fun q => (Q q).filter fun r => r.1 ≠ t)
        (S.filter fun r => r.1 ≠ t) (some t) := by
  have hb : p.state t = .blocked := ((hQ.waiting t hv).1 hm).1
  obtain ⟨w₁, h1, h2⟩ := withdrawAdvance_spec hQ hv already (p.waits.waitMemberCount t) 0 p.waits
    (by omega) (.refl _ fun q hq => by simpa using hq.2)
  have hQ₁ := hQ.advanced h2
  have hmem : ∀ m, (t, m) ∈ S ↔ m ∈ List.range (p.waits.waitMemberCount t) := fun m => by
    rw [hQ.linked, mem_range]
    exact and_iff_right hv
  obtain ⟨w₂, h3, h4, h5⟩ := forEach_remove_spec (p := { p with waits := w₁ })
    (fun p m => removeWaitRegistration p (t, m)) hQ₁.waits hQ₁.live
    (fun p' m w _ he => he) nodup_range hmem
  have hcount : w₂.waitRegistrationCount t = 0 := by
    rw [h5.each, Finset.filter_filter]
    simp
  obtain ⟨w, hw⟩ : ∃ w : WaitTable, w = { w₂ with
      waitMemberCount := update w₂.waitMemberCount t 0
      waitMode := update w₂.waitMode t .none
      waitRegistrationCount := update w₂.waitRegistrationCount t 0 } := ⟨_, rfl⟩
  have hmembers : w.waitMemberCount = update p.waits.waitMemberCount t 0 := by
    rw [hw, ← h2.members, ← h4.members]
  have hmode : w.waitMode = update p.waits.waitMode t .none := by
    rw [hw, ← h2.mode, ← h4.mode]
  have hrow : w.rowAllocated = p.waits.rowAllocated := by
    rw [hw, ← h2.rowAllocated, ← h4.rowAllocated]
  have hshape : WaitShape w (fun q => (Q q).filter fun r => r.1 ≠ t)
      (S.filter fun r => r.1 ≠ t) := by
    rw [hw]
    refine { h5 with each := fun x => ?_ }
    rw [← h5.each, ← hcount, update_eq_self]
  refine ⟨w, ?_, ⟨hrow, hmembers, hmode, fun r => ?_, fun q hqa hq => ?_, fun q hq => ?_⟩, ?_⟩
  · unfold withdrawWaitSet
    rw [if_neg (by simp [hb, hm, hQ.row t hv hm])]
    rw [← range_eq_range'] at h1
    simp only [h1, Result.andThen_ok, h3, Result.orCorrupt_ok, ← hw]
  · refine Option.ext fun q => ?_
    have h6 := hshape.queued r q
    have h7 := hQ.waits.queued r q
    split_ifs with hr
    · simp only [h6, mem_filter, hr, ne_eq, not_true, decide_false, Bool.false_eq_true,
        and_false]
    · simp only [h6, h7, mem_filter, ne_eq, hr, not_false_iff, decide_true, and_true]
  · rw [hw]
    exact (h4.sequence q).trans (h2.advanced q ⟨hqa, hq⟩)
  · rw [hw]
    refine (h4.sequence q).trans (h2.kept q fun ha => ?_)
    exact hq.elim (fun he => ha.1 he) fun hn => hn ha.2
  · refine { hQ with
      readyMem := fun x k => ?_, waits := hshape, linked := fun x m => ?_,
      waiting := fun x hx => ?_, memberMax := fun x hx => ?_, row := fun x hx => ?_,
      served := fun q => (hQ.served q).filter _, callQueue := fun s r hr => ?_,
      deathQueue := fun s r hr => hQ.deathQueue s r (mem_filter.1 hr).1 }
    · rw [hQ.readyMem]
      simp only [ne_eq, reduceCtorEq, not_false_iff, and_true, Option.some.injEq]
      constructor
      · rintro ⟨h6, h7, h8, h9⟩
        refine ⟨h6, h7, h8, h9, ?_⟩
        rintro rfl
        rw [hb] at h7
        exact absurd h7 (by simp)
      · exact fun ⟨h6, h7, h8, h9, _⟩ => ⟨h6, h7, h8, h9⟩
    · simp only [Finset.mem_filter, hQ.linked, hmembers, update_apply]
      by_cases hx : x = t
      · simp [hx]
      · simp only [ne_eq, hx, not_false_iff, and_true, if_false]
        exact Iff.rfl
    · simp only [hmembers, update_apply, ne_eq, Option.some.injEq]
      by_cases hxt : x = t
      · simp [hxt]
      · simpa [hxt, Ne.symm hxt] using hQ.waiting x hx
    · simp only [hmembers, update_apply]
      split_ifs
      · exact Nat.zero_le _
      · exact hQ.memberMax x hx
    · simp only [hmembers, hrow, update_apply]
      split_ifs
      · simp
      · exact hQ.row x hx
    · obtain ⟨hr, hrt⟩ := mem_filter.1 hr
      obtain ⟨rfl, h6⟩ := hQ.callQueue s r hr
      have hst : s ≠ t := by simpa using hrt
      rw [hmode, update_of_ne hst]
      exact ⟨rfl, h6⟩

end Withdraw

end Astra
