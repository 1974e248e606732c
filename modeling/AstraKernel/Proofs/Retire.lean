import AstraKernel.Proofs.Deaths

/-!
# Retiring a thread

A thread that is retired leaves the queue its state has it on, its owner and its donors, and then
ends. A ready thread is off its list by the time its donors go: a change of its priority would look
for it there.
-/

namespace Astra

open Function List

/-- What a thread runs at without donors. -/
def ownPriority (p : Pool) (t : Slot) : ℕ :=
  priorityEffective (p.prio.basePriority t) (p.prio.inheritedPriority t) 0
    (p.prio.budgetThrottled t)

def Lifted (p : Pool) (t : Slot) : Prop :=
  p.state t = .ready ∧ p.suspended t = false ∧ p.prio.effectivePriority t ≠ ownPriority p t

def Pool.retiring (p : Pool) (t : Slot) (result : ℕ) : Pool :=
  { p with
    state := update p.state t (if p.state t = .blocked then .ready else p.state t)
    suspended := update p.suspended t true
    waitObserver := update p.waitObserver t none
    observed := p.observed ++ notice p t result }

section

variable {p p' p₁ p₂ : Pool} {R : ℕ → List Slot} {Q : QueueRef → List Registration}
  {S : Finset Registration} {D D' : Slot → List Slot} {limbo loose : Option Slot} {t : Slot}

theorem retireDequeue_spec (h : Sound p R Q S D none) (hv : validThread p t)
    (hd : p.state t ≠ .dead) :
    ∃ rq d w R₁ Q₁ S₁ loose,
      retireDequeue p t = (.ok, { p with ready := rq, deadlines := d, waits := w }) ∧
      Queued { p with ready := rq, deadlines := d, waits := w } R₁ Q₁ S₁ (some t) ∧
      Donated { p with ready := rq, deadlines := d, waits := w } D none loose ∧
      (loose = none ∨ loose = some t) ∧
      (p.state t = .blocked ∧ Withdrawn p.waits w t none ∧ Undeadlined p.deadlines d t
        ∨ p.state t ≠ .blocked ∧ w = p.waits ∧ d = p.deadlines) := by
  have hstay : Off p t → retireDequeue p t = (.ok, p) → ∃ rq d w R₁ Q₁ S₁ loose,
      retireDequeue p t = (.ok, { p with ready := rq, deadlines := d, waits := w }) ∧
      Queued { p with ready := rq, deadlines := d, waits := w } R₁ Q₁ S₁ (some t) ∧
      Donated { p with ready := rq, deadlines := d, waits := w } D none loose ∧
      (loose = none ∨ loose = some t) ∧
      (p.state t = .blocked ∧ Withdrawn p.waits w t none ∧ Undeadlined p.deadlines d t
        ∨ p.state t ≠ .blocked ∧ w = p.waits ∧ d = p.deadlines) := fun hoff he =>
    ⟨p.ready, p.deadlines, p.waits, R, Q, S, none, he, h.queued.enter hoff, h.donated, .inl rfl,
      .inr ⟨hoff.1, rfl, rfl⟩⟩
  cases hs : p.state t with
  | unused => exact absurd hs (h.queued.known t hv)
  | dead => exact absurd hs hd
  | created =>
    rw [hs] at hstay
    exact hstay ⟨by simp [hs], by simp [hs]⟩ (by simp [retireDequeue, hs])
  | running =>
    rw [hs] at hstay
    exact hstay ⟨by simp [hs], by simp [hs]⟩ (by simp [retireDequeue, hs])
  | ready =>
    rw [hs] at hstay
    by_cases hu : p.suspended t = true
    · exact hstay ⟨by simp [hs], fun _ => hu⟩ (by simp [retireDequeue, hs, hu])
    · obtain ⟨rq, h1, h2⟩ := h.queued.dequeue hv hs (by simpa using hu)
      refine ⟨rq, p.deadlines, p.waits, _, Q, S, none, ?_, h2, { h.donated with }, .inl rfl,
        .inr ⟨by simp, rfl, rfl⟩⟩
      simp only [retireDequeue, hs, hu, if_false, h1, Bool.false_eq_true]
  | blocked =>
    obtain ⟨d, h1, h2⟩ := deadlineRemove_spec h.steady.heap hv
    have hm : p.waits.waitMemberCount t ≠ 0 := (h.queued.waiting t hv).2 ⟨hs, by simp⟩
    have hQ₁ : Queued { p with deadlines := d } R Q S none := { h.queued with }
    obtain ⟨w, h3, h4, h5⟩ := withdrawWaitSet_spec hQ₁ hv hm none
    have hD₁ : Donated { p with deadlines := d, waits := w } D none (some t) :=
      Donated.withdrawn (p := { p with deadlines := d }) { h.donated with } (.inl rfl) h4
    refine ⟨p.ready, d, w, R, _, _, some t, ?_, h5, hD₁, .inr rfl, .inl ⟨rfl, h4, h2⟩⟩
    simp only [retireDequeue, hs, h1, Result.orCorrupt_ok, h3]

theorem steady_of_cleared (h : Steady p) {prio : PriorityTable} {rq : ReadyQueues}
    {w w' : WaitTable} {dn : DonorTable} {d : DeadlineHeap} {result : ℕ}
    (hwd : p.state t = .blocked ∧ Withdrawn p.waits w t none ∧ Undeadlined p.deadlines d t
      ∨ p.state t ≠ .blocked ∧ w = p.waits ∧ d = p.deadlines) (hF : w.Frame w') :
    Steady { p.settle prio rq w' dn with
      deadlines := d
      state := update p.state t (if p.state t = .blocked then .ready else p.state t)
      suspended := update p.suspended t true
      waitObserver := update p.waitObserver t none
      observed := p.observed ++ notice p t result } := by
  have hheap : HeapShape d ∧ ∀ x ∈ d.heap, x ∈ p.deadlines.heap ∧ x ≠ t := by
    rcases hwd with ⟨-, -, hu⟩ | ⟨hb, -, rfl⟩
    · exact ⟨hu.shape, fun x hx => (hu.mem x).1 hx⟩
    · refine ⟨h.heap, fun x hx => ⟨hx, ?_⟩⟩
      rintro rfl
      exact hb (h.timed x hx).2
  have hmode : ∀ x, validThread p x → (x = t ∨ p.state x ≠ .blocked) → w.waitMode x = .none := by
    intro x hx hb
    rcases hwd with ⟨-, hw, -⟩ | ⟨hbt, rfl, -⟩
    · rw [hw.mode]
      rcases eq_or_ne x t with rfl | hxt
      · exact update_self ..
      · rw [update_of_ne hxt]
        exact h.mode x hx (hb.resolve_left hxt)
    · refine h.mode x hx ?_
      rcases hb with rfl | hb
      · exact hbt
      · exact hb
  have hseq : ∀ q, 0 < (w.queue q).sequence ∧ (w.queue q).sequence < 2 ^ 32 := by
    rcases hwd with ⟨-, hw, -⟩ | ⟨-, rfl, -⟩
    · exact hw.sequence_pos h.sequence
    · exact h.sequence
  refine ⟨hheap.1, fun x hx => ?_, fun x hx hb => ?_, fun x hx hb => ?_, fun q => ?_, h.nextSlot⟩
  · obtain ⟨h1, h2⟩ := hheap.2 x hx
    exact ⟨(h.timed x h1).1, (update_of_ne h2 _ _).trans (h.timed x h1).2⟩
  · show update p.waitObserver t none x = none
    rcases eq_or_ne x t with rfl | hxt
    · exact update_self ..
    · rw [update_of_ne hxt]
      exact h.observer x hx fun h1 => hb ((update_of_ne hxt _ _).trans h1)
  · refine (congrFun hF.mode x).trans (hmode x hx ?_)
    rcases eq_or_ne x t with rfl | hxt
    · exact .inl rfl
    · exact .inr fun h1 => hb ((update_of_ne hxt _ _).trans h1)
  · show 0 < (w'.queue q).sequence ∧ (w'.queue q).sequence < 2 ^ 32
    rw [hF.sequence]
    exact hseq q

theorem retireClear_spec (h : Sound p R Q S D none) (hv : validThread p t)
    (hd : p.state t ≠ .dead) (hlift : ¬ Lifted p t) (result : ℕ) :
    ∃ p₁ R' Q' S' D',
      (∀ k, ((retireDequeue p t).andThen fun p => (dropWaitOwner p t).orCorrupt fun p =>
        (withdrawWaitDonors p t).orCorrupt k) = k p₁) ∧
      Sound (p₁.retiring t result) R' Q' S' D' none ∧ D' t = [] ∧
      Off (p₁.retiring t result) t ∧ (p₁.retiring t result).state t ≠ .dead ∧
      Progress p (p₁.retiring t result) none 0 (fun x e => x = t ∧ e = .retired result) ∧
      Released p (p₁.retiring t result) ∧ p₁.liveThreads = p.liveThreads ∧
      p₁.suspended = p.suspended ∧ p₁.state = p.state := by
  obtain ⟨rq, d, w, R₁, Q₁, S₁, loose, h1, hQ₁, hD₁, hloose, hwd⟩ := retireDequeue_spec h hv hd
  obtain ⟨p₁, hp₁⟩ : ∃ p₁, p₁ = { p with ready := rq, deadlines := d, waits := w } := ⟨_, rfl⟩
  rw [← hp₁] at h1 hQ₁ hD₁
  have hv₁ : validThread p₁ t := by
    rw [hp₁]
    exact hv
  have hquiet : Quiet p₁ (some t) t := by
    rw [hp₁]
    intro x hx hr hu
    cases hx
    refine ⟨rfl, ?_⟩
    by_contra hne
    exact hlift ⟨hr, hu, hne⟩
  have hdrop : ∀ r, p₁.donors.waitOwnerSlot t = some r → Quiet p₁ (some t) r := fun r hr => by
    refine Quiet.of_blocked ?_ r
    by_contra hne
    rw [hD₁.owner_none hne] at hr
    exact absurd hr (by simp)
  obtain ⟨p₂, h2, h3, hle₂⟩ := dropWaitOwner_spec hQ₁ hD₁ hloose hdrop
  have hquiet₂ : Quiet p₂ (some t) t := hquiet.refreshed
    (fun x hx => by obtain rfl := Option.some.inj hx; exact hv₁) h3 hle₂
  obtain ⟨R₂, Q₂, hQ₂⟩ := h3.queued
  have hv₂ : ∀ x, some t = some x → validThread p₂ x := fun x hx => by
    cases hx
    obtain ⟨prio, rq', w', dn, rfl, -⟩ := h3.moved
    exact hv₁
  obtain ⟨p₃, h4, h5, -⟩ := withdrawWaitDonors_spec hQ₂ h3.donated hv₂ hquiet₂
  have h6 := h3.trans h5
  have hown := h6.own
  have hD₃ := h5.donated
  obtain ⟨R₃, Q₃, hQ₃⟩ := h6.queued
  obtain ⟨prio, rq', w', dn, hp₃, hF, hrows⟩ := h6.moved
  have hmem : ∀ x y, x ∈ update (fun x => (D x).filter (· ≠ t)) t [] y → x ∈ D y ∧ x ≠ t := by
    intro x y hx
    rcases eq_or_ne y t with rfl | hy
    · simp at hx
    · rw [update_of_ne hy, mem_filter] at hx
      exact ⟨hx.1, by simpa using hx.2⟩
  have howner : p₃.donors.waitOwnerSlot t = none := by
    by_contra hne
    obtain ⟨y, hy⟩ := Option.ne_none_iff_exists'.1 hne
    exact (hmem t y ((hD₃.owner t y).1 hy)).2 rfl
  have hs₃ : p₃.state = p.state := by
    rw [hp₃, hp₁]
    rfl
  have hobs₃ : p₃.waitObserver = p.waitObserver := by
    rw [hp₃, hp₁]
    rfl
  have hstate : (if p₃.state t = .blocked then KernelThreadState.ready else p₃.state t)
      ≠ .blocked := by
    split_ifs with hb
    · simp
    · exact hb
  have hndead : (if p₃.state t = .blocked then KernelThreadState.ready else p₃.state t) ≠ .dead := by
    rw [hs₃]
    split_ifs
    · simp
    · exact hd
  have hknown : (if p₃.state t = .blocked then KernelThreadState.ready else p₃.state t)
      ≠ .unused := by
    rw [hs₃]
    split_ifs
    · simp
    · exact h.queued.known t hv
  have hoff : Off (p₃.retiring t result) t := by
    refine ⟨?_, fun _ => update_self ..⟩
    show update p₃.state t _ t ≠ .blocked
    rwa [update_self]
  have hQ₄ : Queued (p₃.retiring t result) R₃ Q₃ S₁ none :=
    Queued.leave { hQ₃.relabel hknown true with } hoff
  have hD₄ : Donated (p₃.retiring t result) (update (fun x => (D x).filter (· ≠ t)) t []) none none :=
    { hD₃.restate (.inl howner) (.inr hndead) with }
  have hF' : w.Frame w' := by
    rw [hp₁] at hF
    exact hF
  have hrows' : ∀ r, (w'.row r).queue = (w.row r).queue := by
    rw [hp₁] at hrows
    exact hrows
  have hpool : p₃.retiring t result = { p.settle prio rq' w' dn with
      deadlines := d
      state := update p.state t (if p.state t = .blocked then .ready else p.state t)
      suspended := update p.suspended t true
      waitObserver := update p.waitObserver t none
      observed := p.observed ++ notice p t result } := by
    rw [hp₃, hp₁]
    rfl
  have hsteady : Steady (p₃.retiring t result) := by
    rw [hpool]
    exact steady_of_cleared h.steady hwd hF'
  have hprogress : Progress p (p₃.retiring t result) none 0
      fun x e => x = t ∧ e = .retired result := by
    rw [hpool]
    rcases hwd with ⟨hb, hw, hu⟩ | ⟨hb, rfl, rfl⟩
    · rw [if_pos hb]
      exact progress_of_withdrawn (e := .retired result) (hw.frame hF' hrows') hu
        (h.queued.slot t hv) hb (.inl rfl) (fun _ _ => rfl) rfl
    · have hnone := h.steady.observer t hv hb
      have hcalm : Calm p { p.settle prio rq' w' dn with
          deadlines := p.deadlines
          state := update p.state t (if p.state t = .blocked then .ready else p.state t)
          suspended := update p.suspended t true
          waitObserver := update p.waitObserver t none
          observed := p.observed ++ notice p t result } := by
        rw [if_neg hb, update_eq_self, ← hnone, update_eq_self, notice, hnone]
        refine ⟨rfl, rfl, rfl, fun x => ?_, fun _ => Iff.rfl⟩
        exact ⟨congrFun hF'.members x, congrFun hF'.mode x, fun m => hrows' (x, m), Iff.rfl, rfl,
          rfl, rfl, by simp [noticesOf], rfl, rfl⟩
      refine hcalm.progress ?_ rfl rfl hF'.sequence none _
      rw [if_neg hb]
      exact update_eq_self ..
  refine ⟨p₃, R₃, Q₃, S₁, _, fun k => ?_, ⟨hQ₄, hD₄, ?_⟩, update_self .., hoff, ?_, ?_, ?_, ?_, ?_, hs₃⟩
  · rw [h1, Result.andThen_ok, h2, Result.orCorrupt_ok, h4, Result.orCorrupt_ok]
  · exact hsteady
  · show update p₃.state t _ t ≠ .dead
    rwa [update_self]
  · exact hprogress
  · refine ⟨?_, fun x y hxy => ?_⟩
    · rw [hp₁] at hown
      exact ⟨hown.base, hown.inherited, hown.throttled⟩
    · have h7 : p₃.donors.waitOwnerSlot x = some y := hxy
      exact (h.donated.owner x y).2 (hmem x y ((hD₃.owner x y).1 h7)).1
  · rw [hp₃, hp₁]
    rfl
  · rw [hp₃, hp₁]
    rfl

theorem retireKill_spec (h : Sound (p.retiring t result) R Q S D none) (hv : validThread p t)
    (hoff : Off (p.retiring t result) t) (hd : (p.retiring t result).state t ≠ .dead)
    (hD : D t = []) (releaseStacks : Bool) :
    ∃ p', retireKill p t result releaseStacks = (.ok, p') ∧
      Woke (p.retiring t result) p' none 0 (deathsOf p t result 0) ∧ p'.state t = .dead ∧
      ∀ x, x ≠ t → p'.state x = .dead → p.state x = .dead := by
  obtain ⟨p₁, hp₁⟩ : ∃ p₁, p₁ = markReapPending { p with
      exitStatus := update p.exitStatus t 0
      terminalResult := update p.terminalResult t result
      state := update p.state t .dead
      waitObserver := update p.waitObserver t none
      observed := p.observed ++ notice p t result
      suspended := update p.suspended t false
      stackReleased := if releaseStacks then update p.stackReleased t true else p.stackReleased }
      t := ⟨_, rfl⟩
  have hk : Housekept { p.retiring t result with
      state := update (p.retiring t result).state t .dead
      suspended := update (p.retiring t result).suspended t false } p₁ := by
    have h1 : update (p.retiring t result).state t .dead = update p.state t .dead :=
      update_idem ..
    have h2 : update (p.retiring t result).suspended t false = update p.suspended t false :=
      update_idem ..
    rw [h1, h2, hp₁]
    unfold markReapPending
    split_ifs
    all_goals exact ⟨_, _, _, _, _, _, _, _, _, rfl⟩
  have hexit : p₁.exitStatus t = 0 := by
    rw [hp₁]
    unfold markReapPending
    split_ifs <;> exact update_self ..
  have hlive : p₁.liveThreads = (p.retiring t result).liveThreads := by
    rw [hp₁]
    unfold markReapPending
    split_ifs <;> rfl
  obtain ⟨p', n, h1, h2, h3, h4⟩ := bury_spec h hv hoff hd hD result hk hlive
  refine ⟨p', ?_, ?_, h3, fun x hx hxd => (update_of_ne hx _ _).symm.trans (h4 x hx hxd)⟩
  · unfold retireKill
    rw [notifyWaitObserver_eq]
    have hnotice : notice { p with
        exitStatus := update p.exitStatus t 0
        terminalResult := update p.terminalResult t result
        state := update p.state t .dead } t result = notice p t result := rfl
    simp only [hnotice, ← hp₁, h1, Result.orCorrupt_ok]
  · rw [hexit, ite_self] at h2
    exact h2

theorem Progress.row_of {already : Option QueueRef} {k : ℕ} {W : Slot → Ending → Prop}
    (h : Progress p p' already k W) (hQ : Queued p' R Q S limbo) {r : Registration}
    {q : QueueRef} (hr : (p'.waits.row r).queue = some q) : (p.waits.row r).queue = some q := by
  have hv : validThread p r.1 := by
    have hvr := ((hQ.linked r.1 r.2).1 (hQ.waits.mem ((hQ.waits.queued r q).1 hr))).1
    unfold validThread at hvr ⊢
    rwa [h.occupied] at hvr
  rcases h.thread r.1 with h1 | ⟨h1, -⟩ | ⟨e, -, h1⟩
  · exact (h1.still.row r.2).symm.trans hr
  · exact (h1.row r.2).symm.trans hr
  · rw [h1.row r.2] at hr
    exact absurd hr (by simp)

/-- The waits that retiring a thread ends: its own, and those on its death. -/
def retiredWith (p : Pool) (t : Slot) (result : ℕ) (x : Slot) (e : Ending) : Prop :=
  x = t ∧ e = .retired result ∨ deathsOf p t result 0 x e

theorem retireThread_spec (h : Healthy p) (hv : validThread p t) (hd : p.state t ≠ .dead)
    (hlift : ¬ Lifted p t) (result : ℕ) (releaseStacks : Bool) :
    ∃ p', retireThread result releaseStacks p t = (.ok, p') ∧
      Woke p p' none 0 (retiredWith p t result) ∧ p'.state t = .dead ∧
      ∀ x, x ≠ t → p'.state x = .dead → p.state x = .dead := by
  obtain ⟨R, Q, S, D, h⟩ := h
  obtain ⟨p₁, R', Q', S', D', h1, h2, h3, h4, h5, h6, h7, h8, h9, hs₁⟩ :=
    retireClear_spec h hv hd hlift result
  have hv₁ : validThread p₁ t := by
    have ho : (p₁.retiring t result).occupied = p.occupied := h6.occupied
    exact (congrFun ho t).trans hv
  obtain ⟨p', h10, h11, h12, h13⟩ := retireKill_spec h2 hv₁ h4 h5 h3 releaseStacks
  refine ⟨p', ?_, ⟨h11.healthy, ?_, h7.trans h11.released, fun x hx => ?_,
    h11.live.trans h8⟩, h12, fun x hx hxd => ?_⟩
  · unfold retireThread
    rw [h1]
    exact h10
  · have h14 := (h6.mono (Nat.le_refl 0) fun x e he => .inl he : Progress p _ none 0
      (retiredWith p t result))
    refine h14.trans (h11.progress.mono le_rfl ?_)
    rintro x e ⟨m, hm, rfl⟩
    refine .inr ⟨m, ?_, rfl⟩
    exact h6.row_of h2.queued hm
  · have hxt : x ≠ t := by
      rintro rfl
      exact hx h12
    refine (h11.suspended x hx).trans ?_
    show update p₁.suspended t true x = _
    rw [update_of_ne hxt, h9]
  · exact (congrFun hs₁ x).symm.trans (h13 x hx hxd)

theorem Sound.inherits (h : Sound p R Q S D none) :
    Inherits p.donors.waitOwnerSlot (validThread p) (ownPriority p) p.prio.effectivePriority := by
  intro x hx b
  rw [h.queued.effective x hx, PriorityTable.effectiveOf, priorityEffective,
    h.donated.exact x hx (by simp), max_le_iff, maxEffective_le, ownPriority, priorityEffective,
    max_eq_left (Nat.zero_le _)]
  refine and_congr_right fun _ => ⟨fun h1 y _ hyx => h1 y ((h.donated.owner y x).1 hyx),
    fun h1 y hy => h1 y (h.donated.ends x y hy).1 ((h.donated.owner y x).2 hy)⟩

/-- The threads that retiring a process ends before it comes to `t`. -/
def RetiredBefore (p : Pool) (process : ℕ) (survivor : Option Slot) (t s : Slot) : Prop :=
  s < t ∧ liveIn p process s ∧ some s ≠ survivor

/-- Whether retiring a process will find `t` on a ready list: it is there, or the death of a thread
of a lower slot puts it there. -/
def ReadyWhenRetired (p : Pool) (process : ℕ) (survivor : Option Slot) (t : Slot) : Prop :=
  p.suspended t = false ∧ (p.state t = .ready ∨ p.state t = .blocked ∧
    ∃ s m, RetiredBefore p process survivor t s ∧ (p.waits.row (t, m)).queue = some (.death s))

/-- No thread of the process that will be found on a ready list is donated a priority above its own,
by threads of other processes or of higher slots. -/
def Unlifted (p : Pool) (process : ℕ) (survivor : Option Slot) : Prop :=
  ∀ t, liveIn p process t → some t ≠ survivor → ReadyWhenRetired p process survivor t →
    ∀ x, Reaches p.donors.waitOwnerSlot (fun z => ¬ RetiredBefore p process survivor t z) t x →
      ownPriority p x ≤ ownPriority p t

/-- The waits that retiring the threads of a process below `k` ends. -/
def endsBelow (p : Pool) (process : ℕ) (survivor : Option Slot) (result k : ℕ) (x : Slot)
    (e : Ending) : Prop :=
  ∃ s, RetiredBefore p process survivor k s ∧ retiredWith p s result x e

/-- What holds when the loop has come to slot `k`, in the pool `p₁`: the threads below it have
ended, and no others. -/
structure RetiredTo (p : Pool) (process : ℕ) (survivor : Option Slot) (result k : ℕ) (p₁ : Pool) :
    Prop where
  woke : Woke p p₁ none 0 (endsBelow p process survivor result k)
  dead : ∀ s, RetiredBefore p process survivor k s → p₁.state s = .dead
  fallen : ∀ x, p₁.state x = .dead → p.state x = .dead ∨ RetiredBefore p process survivor k x

theorem ownPriority_of_sameOwn (h : p.prio.SameOwn p'.prio) (x : Slot) :
    ownPriority p' x = ownPriority p x := by
  rw [ownPriority, ownPriority, h.base, h.inherited, h.throttled]

theorem RetiredTo.not_lifted {process : ℕ} {survivor : Option Slot} {result : ℕ}
    (h : RetiredTo p process survivor result t p₁) (hu : Unlifted p process survivor)
    (hl : liveIn p₁ process t) (hs : some t ≠ survivor) : ¬ Lifted p₁ t := by
  rintro ⟨h1, h2, h3⟩
  have hv : validThread p t := by
    have hv₁ := hl.1
    unfold validThread at hv₁ ⊢
    rwa [h.woke.progress.occupied] at hv₁
  have hlp : liveIn p process t := by
    refine ⟨hv, ?_, fun hd => ?_⟩
    · rw [← h.woke.progress.processSlot]
      exact hl.2.1
    · rcases h.woke.progress.state t with h4 | ⟨h4, -⟩ | h4
      · exact hl.2.2 (h4.trans hd)
      · rw [hd] at h4
        exact absurd h4 (by simp)
      · exact hl.2.2 h4
  have hsus : p.suspended t = false := (h.woke.suspended t hl.2.2).symm.trans h2
  have hready : ReadyWhenRetired p process survivor t := by
    refine ⟨hsus, ?_⟩
    rcases h.woke.progress.thread t with h4 | ⟨-, h4⟩ | ⟨e, ⟨s, h5, h6⟩, h7⟩
    · rcases h4.after with h5 | h5
      · exact .inl (h5.symm.trans h1)
      · rw [h1] at h5
        exact absurd h5 (by simp)
    · exact .inl (h4.symm.trans h1)
    · rcases h6 with ⟨rfl, -⟩ | ⟨m, hm, -⟩
      · exact absurd h5.1 (lt_irrefl _)
      · exact .inr ⟨h7.before, s, m, h5, hm⟩
  obtain ⟨R, Q, S, D, hS⟩ := h.woke.healthy
  have hown : ∀ x, ownPriority p₁ x = ownPriority p x :=
    ownPriority_of_sameOwn h.woke.released.own
  have hle : p₁.prio.effectivePriority t ≤ ownPriority p₁ t := by
    rw [hS.inherits.le_iff hS.donated.grounded (T := Finset.range p₁.threadSlots)
      (fun x hx => Finset.mem_range.2 (hS.queued.slot x hx))
      (fun y z _ hyz => (hS.donated.ends z y ((hS.donated.owner y z).1 hyz)).2.1) hl.1]
    intro y hy
    rw [hown, hown]
    refine hu t hlp hs hready y ?_
    induction hy with
    | refl => exact .refl
    | step _ hyz _ ih =>
      refine .step (fun hr => ?_) (h.woke.released.owner _ _ hyz) ih
      have hb := (hS.donated.ends _ _ ((hS.donated.owner _ _).1 hyz)).2.2.2.1
      rw [h.dead _ hr] at hb
      exact absurd hb (by simp)
  exact h3 (le_antisymm hle (hS.inherits.own_le hl.1))

/-- The threads of a process among `slots`, the survivor left out. -/
def doomedIn (p : Pool) (process : ℕ) (survivor : Option Slot) (slots : List Slot) : ℕ :=
  slots.countP fun t => liveIn p process t ∧ some t ≠ survivor

variable {process result : ℕ} {survivor : Option Slot}

theorem RetiredBefore.mono {k k' s : ℕ} (h : RetiredBefore p process survivor k s) (hk : k ≤ k') :
    RetiredBefore p process survivor k' s :=
  ⟨h.1.trans_le hk, h.2⟩

theorem RetiredTo.live_iff {k : ℕ} (h : RetiredTo p process survivor result k p₁) :
    liveIn p₁ process k ↔ liveIn p process k := by
  unfold liveIn validThread
  rw [h.woke.progress.occupied, h.woke.progress.processSlot]
  refine and_congr_right fun _ => and_congr_right fun _ => not_congr ⟨fun hd => ?_, fun hd => ?_⟩
  · exact (h.fallen k hd).resolve_right fun hr => lt_irrefl _ hr.1
  · rcases h.woke.progress.state k with h1 | ⟨h1, -⟩ | h1
    · exact h1.trans hd
    · rw [hd] at h1
      exact absurd h1 (by simp)
    · exact h1

theorem RetiredTo.skip {k : ℕ} (h : RetiredTo p process survivor result k p₁)
    (hs : ¬ liveIn p process k ∨ some k = survivor) :
    RetiredTo p process survivor result (k + 1) p₁ where
  woke := h.woke.mono le_rfl fun _ _ ⟨s, h1, h2⟩ => ⟨s, h1.mono (Nat.le_succ k), h2⟩
  dead s hr := by
    rcases Nat.lt_succ_iff_lt_or_eq.1 hr.1 with hlt | rfl
    · exact h.dead s ⟨hlt, hr.2⟩
    · exact absurd hr.2 fun h1 => hs.elim (fun h2 => h2 h1.1) h1.2
  fallen x hx := (h.fallen x hx).imp_right fun hr => hr.mono (Nat.le_succ k)

theorem RetiredTo.next {k : ℕ} (h : RetiredTo p process survivor result k p₁)
    (hl : liveIn p process k) (hs : some k ≠ survivor)
    (hw : Woke p₁ p₂ none 0 (retiredWith p₁ k result)) (hd : p₂.state k = .dead)
    (hf : ∀ x, x ≠ k → p₂.state x = .dead → p₁.state x = .dead) :
    RetiredTo p process survivor result (k + 1) p₂ where
  woke := by
    have h1 : Woke p p₁ none 0 (endsBelow p process survivor result (k + 1)) :=
      h.woke.mono le_rfl fun _ _ ⟨s, h1, h2⟩ => ⟨s, h1.mono (Nat.le_succ k), h2⟩
    refine h1.trans (hw.mono le_rfl ?_)
    obtain ⟨R, Q, S, D, hS⟩ := h.woke.healthy
    rintro x e (⟨rfl, rfl⟩ | ⟨m, hm, rfl⟩)
    · exact ⟨x, ⟨Nat.lt_succ_self x, hl, hs⟩, .inl ⟨rfl, rfl⟩⟩
    · exact ⟨k, ⟨Nat.lt_succ_self k, hl, hs⟩, .inr ⟨m, h.woke.progress.row_of hS.queued hm, rfl⟩⟩
  dead s hr := by
    rcases Nat.lt_succ_iff_lt_or_eq.1 hr.1 with hlt | rfl
    · have h1 := h.dead s ⟨hlt, hr.2⟩
      rcases hw.progress.state s with h2 | ⟨h2, -⟩ | h2
      · exact h2.trans h1
      · rw [h1] at h2
        exact absurd h2 (by simp)
      · exact h2
    · exact hd
  fallen x hx := by
    rcases eq_or_ne x k with rfl | hne
    · exact .inr ⟨Nat.lt_succ_self x, hl, hs⟩
    · exact (h.fallen x (hf x hne hx)).imp_right fun hr => hr.mono (Nat.le_succ k)

theorem retireThreads_spec (hu : Unlifted p process survivor) (releaseStacks : Bool) :
    ∀ (n k : ℕ) {p₁ : Pool} (retired : ℕ), RetiredTo p process survivor result k p₁ →
      ∃ p', retireThreads process survivor result releaseStacks p₁ (List.range' k n) retired
          = ((.ok, p'), retired + doomedIn p process survivor (List.range' k n)) ∧
        RetiredTo p process survivor result (k + n) p'
  | 0, k, p₁, retired, h => ⟨p₁, rfl, h⟩
  | n + 1, k, p₁, retired, h => by
    rw [range'_succ]
    unfold retireThreads
    split
    · rename_i hskip
      rw [h.live_iff] at hskip
      obtain ⟨p', h1, h2⟩ := retireThreads_spec hu releaseStacks n (k + 1) retired (h.skip hskip)
      refine ⟨p', ?_, (by omega : k + 1 + n = k + (n + 1)) ▸ h2⟩
      rw [h1, doomedIn, doomedIn, countP_cons_of_neg]
      simpa only [decide_eq_true_eq, not_and, not_not, not_or, imp_iff_not_or] using hskip
    · rename_i hskip
      push Not at hskip
      obtain ⟨hl₁, hs⟩ := hskip
      have hl := h.live_iff.1 hl₁
      obtain ⟨p₂, h1, h2, h3, h4⟩ := retireThread_spec h.woke.healthy hl₁.1 hl₁.2.2
        (h.not_lifted hu hl₁ hs) result releaseStacks
      obtain ⟨p', h5, h6⟩ := retireThreads_spec hu releaseStacks n (k + 1) (retired + 1)
        (h.next hl hs h2 h3 h4)
      refine ⟨p', ?_, (by omega : k + 1 + n = k + (n + 1)) ▸ h6⟩
      simp only [h1, h5]
      rw [doomedIn, doomedIn, countP_cons_of_pos]
      · rw [Nat.add_assoc, Nat.add_comm 1]
      · exact decide_eq_true ⟨hl, hs⟩

theorem RetiredTo.start (h : Healthy p) : RetiredTo p process survivor result 0 p :=
  ⟨⟨h, .refl p _ _, .refl p, fun _ _ => rfl, rfl⟩, fun _ hr => absurd hr.1 (Nat.not_lt_zero _),
    fun _ hx => .inl hx⟩

theorem retireProcessThreads_spec (h : Healthy p) (hu : Unlifted p process survivor)
    (hs : ∀ t, survivor = some t → validThread p t ∧ p.processSlot t = process
      ∧ p.state t = .running) (result : ℕ) (releaseStacks : Bool) :
    ∃ p₁, RetiredTo p process survivor result p.threadSlots p₁ ∧
      retireProcessThreads p process survivor result releaseStacks
        = if (doomedIn p process survivor (List.range p.threadSlots) = 0 ∧ survivor = none)
            ∨ p.liveThreads < doomedIn p process survivor (List.range p.threadSlots) then
          ((.corrupt, p₁), 0)
        else ((.ok, { p₁ with
            liveThreads := p₁.liveThreads - doomedIn p process survivor (List.range p.threadSlots) }),
          doomedIn p process survivor (List.range p.threadSlots)) := by
  have hgate : ¬ ∃ t ∈ survivor, ¬ validThread p t ∨ p.processSlot t ≠ process
      ∨ p.state t ≠ .running := by
    rintro ⟨t, ht, hbad⟩
    obtain ⟨h1, h2, h3⟩ := hs t ht
    simp only [h1, h2, h3, not_true, ne_eq, or_self] at hbad
  have h0 : RetiredTo p process survivor result 0 p := .start h
  obtain ⟨p₁, h1, h2⟩ := retireThreads_spec hu releaseStacks p.threadSlots 0 0 h0
  rw [Nat.zero_add] at h2
  rw [← range_eq_range', Nat.zero_add] at h1
  refine ⟨p₁, h2, ?_⟩
  unfold retireProcessThreads
  rw [if_neg hgate]
  simp only [h1, h2.woke.live]

end

end Astra
