import AstraKernel.Proofs.Records

/-!
# Threads that end

A thread that ends leaves its donors, is marked dead, and wakes those that wait for its death.
-/

namespace Astra

open Function

/-- The wakes of those that wait for a thread's death. -/
def deathsOf (p : Pool) (t : Slot) (result detail : ℕ) : Slot → Ending → Prop :=
  wakesOf p (.death t) result detail true

section

variable {p p' p₁ p₂ : Pool} {R : ℕ → List Slot} {Q : QueueRef → List Registration}
  {S : Finset Registration} {D D' : Slot → List Slot} {limbo : Option Slot}
  {already : Option QueueRef} {k : ℕ} {W : Slot → Ending → Prop} {t : Slot}

theorem Housekept.progress (hk : Housekept p p') (already : Option QueueRef)
    (W : Slot → Ending → Prop) : Progress p p' already 0 W := by
  obtain ⟨a, b, c, d, e, f, g, l, i, rfl⟩ := hk
  have hcalm : Calm p (p.housekeep a b c d e f g l i) :=
    ⟨rfl, rfl, rfl, fun _ => ⟨rfl, rfl, fun _ => rfl, Iff.rfl, rfl, rfl, rfl, rfl, rfl, rfl⟩,
      fun _ => Iff.rfl⟩
  exact hcalm.progress rfl rfl rfl (fun _ => rfl) already W

theorem Housekept.woke (hk : Housekept p p') (h : Healthy p) (hl : p'.liveThreads = p.liveThreads)
    (already : Option QueueRef) (W : Slot → Ending → Prop) : Woke p p' already 0 W := by
  have h1 := hk.stays h
  have h2 := hk.progress already W
  obtain ⟨a, b, c, d, e, f, g, l, i, rfl⟩ := hk
  exact ⟨h1.1, h2, ⟨⟨rfl, rfl, rfl⟩, fun _ _ hxy => hxy⟩, fun _ _ => rfl, hl⟩

theorem Progress.bury (hs : p.state t ≠ .blocked) (hd : p.state t ≠ .dead)
    (ht : t < p.threadSlots) (suspended : Slot → Bool) (W : Slot → Ending → Prop)
    (hp : p' = { p with
      state := update p.state t .dead
      suspended := suspended
      waits := p.waits.advance (.death t) }) :
    Progress p p' none 0 W ∧
      ∃ n, 0 < n ∧ n + spent p ≤ spent p' + 0 ∧ Moved p p' (.death t) n := by
  subst hp
  have hstate : ∀ x, update p.state t .dead x = p.state x
      ∨ p.state x = .blocked ∧ update p.state t .dead x = .ready
      ∨ update p.state t .dead x = .dead := fun x => by
    rcases eq_or_ne x t with rfl | hx
    · exact .inr (.inr (update_self ..))
    · exact .inl (update_of_ne hx _ _)
  have hspent : spent p + 1 ≤ spent { p with
      state := update p.state t .dead
      suspended := suspended
      waits := p.waits.advance (.death t) } :=
    spent_lt_of_dead ht hd (update_self ..) rfl hstate
  have hstill : ∀ x, Still p { p with
      state := update p.state t .dead
      suspended := suspended
      waits := p.waits.advance (.death t) } x :=
    fun _ => ⟨rfl, rfl, fun _ => rfl, Iff.rfl, rfl, rfl, rfl, rfl, rfl, rfl⟩
  refine ⟨⟨rfl, rfl, rfl, rfl, rfl, fun _ => .inl rfl, hstate, fun x => ?_, fun q => ?_⟩, 1,
    one_pos, by omega, ?_⟩
  · rcases eq_or_ne x t with rfl | hx
    · exact .inl ⟨hstill x, hs, .inr (update_self ..)⟩
    · exact .inr (.inl ⟨hstill x, update_of_ne hx _ _⟩)
  · refine ⟨if q = .death t then 1 else 0, ?_, moved_advance p (.death t) q⟩
    split_ifs <;> omega
  · have := moved_advance p (.death t) (.death t)
    rwa [if_pos rfl] at this

theorem bury_spec (h : Sound p R Q S D none) (hv : validThread p t) (hs : Off p t)
    (hd : p.state t ≠ .dead) (hD : D t = []) (result : ℕ) {u : Bool}
    (hk : Housekept { p with
      state := update p.state t .dead, suspended := update p.suspended t u } p₁)
    (hl : p₁.liveThreads = p.liveThreads) :
    ∃ p' n, wakeDeathWaiters p₁ t result = ((.ok, p'), n) ∧
      Woke p p' none 0
        (deathsOf p t result (if result = astraSyscallOk then p₁.exitStatus t else 0)) ∧
      p'.state t = .dead ∧ ∀ x, x ≠ t → p'.state x = .dead → p.state x = .dead := by
  have h₁ := hk.sound (h.bury hs hD u)
  obtain ⟨a, b, c, d, e, f, g, l, i, rfl⟩ := hk
  obtain ⟨p', n, h1, h2, hfall⟩ := wakeDeathWaiters_spec h₁ (t := t) hv result
  have hdead : p'.state t = .dead := by
    have h4 : update p.state t .dead t = .dead := update_self ..
    rcases h2.progress.state t with h3 | ⟨h3, -⟩ | h3
    · exact h3.trans h4
    · exact absurd (h4.symm.trans h3) (by simp)
    · exact h3
  refine ⟨p', n, h1, ?_, hdead, fun x hx hxd => (update_of_ne hx _ _).symm.trans (hfall x hxd)⟩
  obtain ⟨h3, n, h4, h5, h6⟩ := Progress.bury hs.1 hd (h.queued.slot t hv)
    (update p.suspended t u)
    (deathsOf p t result (if result = astraSyscallOk then f t else 0)) rfl
  have h7 : Housekept
      { p with
        state := update p.state t .dead
        suspended := update p.suspended t u
        waits := p.waits.advance (.death t) }
      { Pool.housekeep { p with
          state := update p.state t .dead, suspended := update p.suspended t u } a b c d e f g l i
        with waits := p.waits.advance (.death t) } := ⟨_, _, _, _, _, _, _, _, _, rfl⟩
  have h8 := h3.trans (h7.progress none _)
  refine ⟨h2.healthy, h8.trans_advanced ⟨n, h4, h5, h6⟩ h2.progress,
    ⟨h2.released.own, h2.released.owner⟩, fun x hx => ?_, h2.live.trans hl⟩
  have hxt : x ≠ t := by
    rintro rfl
    exact hx hdead
  exact (h2.suspended x hx).trans (update_of_ne hxt _ _)

theorem kernelThreadHandleRelease_spec (h : Healthy p) (t : Slot) :
    Woke p (kernelThreadHandleRelease p t) none 1 (deathsOf p t astraSyscallClosed 0) := by
  have hsame : ∀ p₁, Housekept p p₁ → p₁.liveThreads = p.liveThreads →
      Woke p p₁ none 1 (deathsOf p t astraSyscallClosed 0) := fun p₁ hk hl =>
    (hk.woke h hl none _).mono (Nat.zero_le 1) fun _ _ hW => hW
  unfold kernelThreadHandleRelease
  split
  · exact hsame _ ⟨_, _, _, _, _, _, _, _, _, rfl⟩ rfl
  rename_i hc
  push Not at hc
  obtain ⟨hv, -⟩ := hc
  obtain ⟨p₁, hp₁⟩ : ∃ p₁, p₁ = { p with
      handleReferences := update p.handleReferences t (p.handleReferences t - 1) } := ⟨_, rfl⟩
  have hk₁ : Housekept p p₁ := by
    rw [hp₁]
    exact ⟨_, _, _, _, _, _, _, _, _, rfl⟩
  rw [← hp₁]
  simp only
  split
  · exact hsame _ hk₁ (by rw [hp₁])
  obtain ⟨p₂, hp₂⟩ : ∃ p₂, p₂ = { p₁ with selfHandle := update p₁.selfHandle t 0 } := ⟨_, rfl⟩
  have hk₂ : Housekept p p₂ := by
    rw [hp₂, hp₁]
    exact ⟨_, _, _, _, _, _, _, _, _, rfl⟩
  have hl₂ : p₂.liveThreads = p.liveThreads := by rw [hp₂, hp₁]
  rw [← hp₂]
  by_cases hcount : kernelThreadWaitQueueCount p₂ (.death t) ≠ 0
  · rw [if_pos hcount]
    obtain ⟨R, Q, S, D, hS⟩ := h
    have hv₂ : validThread p₂ t := by
      rw [hp₂, hp₁]
      exact hv
    obtain ⟨p₃, n, h1, h2, -⟩ := wakeDeathWaiters_spec (hk₂.sound hS) hv₂ astraSyscallClosed
    have h3 : Woke p p₃ none 1 (deathsOf p t astraSyscallClosed 0) := by
      have h4 := (hsame p₂ hk₂ hl₂).mono (Nat.le_refl 1) fun _ _ hW => hW
      have h5 := (Woke.advance (hk₂.sound hS) (.death t)
        (deathsOf p t astraSyscallClosed 0)).trans_advanced (advance_moves p₂ (.death t)) (h2.mono
          (le_refl 0) fun x e he => by
            rw [hp₂, hp₁] at he
            exact he)
      have h6 := ((hk₂.woke ⟨R, Q, S, D, hS⟩ hl₂ none
        (deathsOf p t astraSyscallClosed 0)).trans h5)
      exact h6.mono (by omega) fun _ _ hW => hW
    rw [h1]
    simp only
    split_ifs
    · have h4 := (housekept_markReapPending p₃ t).woke h3.healthy (by
        unfold markReapPending
        split_ifs <;> rfl) none (deathsOf p t astraSyscallClosed 0)
      exact (h3.trans h4).mono (by omega) fun _ _ hW => hW
    · exact h3
  · rw [if_neg hcount]
    simp only
    split_ifs
    · have h4 := (housekept_markReapPending p₂ t).woke (hk₂.stays h).1 (by
        unfold markReapPending
        split_ifs <;> rfl) none (deathsOf p t astraSyscallClosed 0)
      exact ((hk₂.woke h hl₂ none _).trans h4).mono (by omega) fun _ _ hW => hW
    · exact hsame _ hk₂ hl₂

theorem Refreshed.woke (h : Sound p R Q S D none) (hr : Refreshed p p' S D' none none)
    (hD : ∀ x y, x ∈ D' y → x ∈ D y) (already : Option QueueRef) (W : Slot → Ending → Prop) :
    Woke p p' already 0 W := by
  obtain ⟨h1, h2⟩ := hr.toSettled.stays h.steady
  have hown := hr.own
  have howner : ∀ x y, p'.donors.waitOwnerSlot x = some y → p.donors.waitOwnerSlot x = some y :=
    fun x y hxy => (h.donated.owner x y).2 (hD x y ((hr.donated.owner x y).1 hxy))
  obtain ⟨prio, rq, w, dn, rfl, hw, -⟩ := hr.moved
  exact ⟨h1, h2.progress rfl rfl rfl hw.sequence already W, ⟨hown, howner⟩, fun _ _ => rfl, rfl⟩

theorem kernelThreadComplete_spec (h : Healthy p) (t : Slot) (exitStatus terminalResult : ℕ) :
    Healthy (kernelThreadComplete p t exitStatus terminalResult).1.2 ∧
      Progress p (kernelThreadComplete p t exitStatus terminalResult).1.2 none 0
        (deathsOf p t terminalResult
          (if terminalResult = astraSyscallOk then exitStatus else 0)) := by
  unfold kernelThreadComplete
  split
  · exact ⟨h, .refl p _ _⟩
  rename_i hc
  push Not at hc
  obtain ⟨hv, hs, -⟩ := hc
  obtain ⟨R, Q, S, D, h⟩ := h
  obtain ⟨p₁, h1, h2, -⟩ := withdrawWaitDonors_spec (r := t) h.queued h.donated (by simp)
    (quiet_none p t)
  have hw₁ := h2.woke h (fun x y hx => by
    rcases eq_or_ne y t with rfl | hy
    · simp at hx
    · rwa [update_of_ne hy] at hx) none
      (deathsOf p t terminalResult (if terminalResult = astraSyscallOk then exitStatus else 0))
  obtain ⟨R₁, Q₁, hQ₁⟩ := h2.queued
  have hD₁ := h2.donated
  obtain ⟨prio, rq, w, dn, hp₁, hF, hrows⟩ := h2.moved
  have hS₁ : Steady p₁ := by
    rw [hp₁]
    exact h.steady.settle hF
  have hv₁ : validThread p₁ t := by
    rw [hp₁]
    exact hv
  have hs₁ : p₁.state t = .running := by
    rw [hp₁]
    exact hs
  have hk : Housekept { p₁ with
      state := update p₁.state t .dead, suspended := update p₁.suspended t (p₁.suspended t) }
      (markReapPending { p₁ with
        exitStatus := update p₁.exitStatus t exitStatus
        terminalResult := update p₁.terminalResult t terminalResult
        state := update p₁.state t .dead } t) := by
    rw [update_eq_self]
    unfold markReapPending
    split_ifs
    · exact ⟨_, _, _, _, _, _, _, _, _, rfl⟩
    · exact ⟨_, _, _, _, _, _, _, _, _, rfl⟩
  obtain ⟨p₂, hp₂⟩ : ∃ p₂, p₂ = markReapPending { p₁ with
      exitStatus := update p₁.exitStatus t exitStatus
      terminalResult := update p₁.terminalResult t terminalResult
      state := update p₁.state t .dead } t := ⟨_, rfl⟩
  rw [← hp₂] at hk
  have hexit : p₂.exitStatus t = exitStatus := by
    rw [hp₂]
    unfold markReapPending
    split_ifs <;> exact update_self ..
  have hlive : p₂.liveThreads = p₁.liveThreads := by
    rw [hp₂]
    unfold markReapPending
    split_ifs <;> rfl
  obtain ⟨p₃, n, h3, h4, -⟩ := bury_spec ⟨hQ₁, hD₁, hS₁⟩ hv₁
    ⟨by simp [hs₁], fun hr => by simp [hs₁] at hr⟩ (by simp [hs₁]) (update_self ..) terminalResult
    hk hlive
  have h5 : Progress p p₃ none 0 (deathsOf p t terminalResult
      (if terminalResult = astraSyscallOk then exitStatus else 0)) := by
    refine hw₁.progress.trans (h4.progress.mono le_rfl ?_)
    rintro x e ⟨m, hm, rfl⟩
    rw [hp₁] at hm
    exact ⟨m, (hrows (x, m)).symm.trans hm, by rw [hexit]⟩
  simp only [h1, ← hp₂, h3]
  split
  · exact ⟨h4.healthy, h5⟩
  · have h6 : Housekept p₃ { p₃ with liveThreads := p₃.liveThreads - 1 } :=
      ⟨_, _, _, _, _, _, _, _, _, rfl⟩
    exact ⟨(h6.stays h4.healthy).1, h5.trans (h6.progress none _)⟩

end

end Astra
