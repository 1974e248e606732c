import AstraKernel.Proofs.Progress

/-!
# Waking, expiring, cancelling and replying

Each of them completes waits one at a time, in a pool that is sound before and after. A loop over
a queue or over the heap takes a thread off it with every turn, so it ends.
-/

namespace Astra

open Finset Function List

def Healthy (p : Pool) : Prop :=
  ∃ R Q S D, Sound p R Q S D none

structure Released (p p' : Pool) : Prop where
  own : p.prio.SameOwn p'.prio
  owner : ∀ x y, p'.donors.waitOwnerSlot x = some y → p.donors.waitOwnerSlot x = some y

structure Woke (p p' : Pool) (already : Option QueueRef) (k : ℕ) (W : Slot → Ending → Prop) :
    Prop where
  healthy : Healthy p'
  progress : Progress p p' already k W
  released : Released p p'
  suspended : ∀ x, p'.state x ≠ .dead → p'.suspended x = p.suspended x
  live : p'.liveThreads = p.liveThreads

/-- The wakes of a queue's waiters. -/
def wakesOf (p : Pool) (queue : QueueRef) (result detail : ℕ) (one : Bool) (t : Slot) (e : Ending) :
    Prop :=
  ∃ m, (p.waits.row (t, m)).queue = some queue ∧ e = .woken m result detail one

section

variable {p p' p₁ p₂ : Pool} {R : ℕ → List Slot} {Q : QueueRef → List Registration}
  {S : Finset Registration} {D : Slot → List Slot} {loose : Option Slot}
  {already : Option QueueRef} {k k' : ℕ}
  {W W' : Slot → Ending → Prop} {queue : QueueRef} {result detail : ℕ} {one : Bool} {t : Slot}

theorem Released.refl (p : Pool) : Released p p :=
  ⟨.refl _, fun _ _ h => h⟩

theorem Released.trans (h : Released p p₁) (h' : Released p₁ p₂) : Released p p₂ :=
  ⟨h.own.trans h'.own, fun x y hxy => h.owner x y (h'.owner x y hxy)⟩

theorem Progress.dead_mono (h : Progress p p' already k W) (hd : p'.state t ≠ .dead) :
    p.state t ≠ .dead := by
  intro hp
  rcases h.state t with h1 | ⟨h1, -⟩ | h1
  · exact hd (h1.trans hp)
  · rw [hp] at h1
    exact absurd h1 (by simp)
  · exact hd h1

theorem Woke.trans (h : Woke p p₁ already k W) (h' : Woke p₁ p₂ already k' W) :
    Woke p p₂ already (k + k') W :=
  ⟨h'.healthy, h.progress.trans h'.progress, h.released.trans h'.released,
    fun x hx => (h'.suspended x hx).trans (h.suspended x (h'.progress.dead_mono hx)),
    h'.live.trans h.live⟩

theorem Woke.mono (h : Woke p p' already k W) (hk : k ≤ k') (hW : ∀ t e, W t e → W' t e) :
    Woke p p' already k' W' :=
  { h with progress := h.progress.mono hk hW }

variable {S' : Finset Registration} {member : Option ℕ} {Q' : QueueRef → List Registration}
  {r : Registration}

theorem Completed.woke {R' : ℕ → List Slot} (h : Sound p R Q S D loose)
    (hv : validThread p t) (hb : p.state t = .blocked) (hc : Completed p p' t already member result detail one)
    (h' : Sound p' R' Q' S' (fun x => (D x).filter (· ≠ t)) none) {e : Ending} (hr : e.result = result)
    (hd : e.data (p.data t) (p.waits.waitMode t)
      = endData (p.data t) (p.waits.waitMode t) member result detail one) :
    Woke p p' already 0 fun x e' => x = t ∧ e' = e := by
  have hprog := hc.progress (h.queued.slot t hv) hb hr hd
  refine ⟨⟨_, _, _, _, h'⟩, hprog, ⟨?_, fun x y hxy => ?_⟩, ?_, ?_⟩
  · obtain ⟨prio, rq, w, dn, d, rfl, -, -, hown⟩ := hc.eq
    exact hown
  · have := (h'.donated.owner x y).1 hxy
    exact (h.donated.owner x y).2 (mem_filter.1 this).1
  · obtain ⟨prio, rq, w, dn, d, rfl, -⟩ := hc.eq
    exact fun _ _ => rfl
  · obtain ⟨prio, rq, w, dn, d, rfl, -⟩ := hc.eq
    rfl

section

variable (hc : Completed p p' t already member result detail one)
include hc

theorem Completed.row
    (r : Registration) : (p'.waits.row r).queue = if r.1 = t then none else (p.waits.row r).queue := by
  obtain ⟨prio, rq, w, dn, d, rfl, hw, -⟩ := hc.eq
  exact hw.rows r

theorem Completed.mem_heap (x : Slot) : x ∈ p'.deadlines.heap ↔ x ∈ p.deadlines.heap ∧ x ≠ t := by
  obtain ⟨prio, rq, w, dn, d, rfl, -, hd, -⟩ := hc.eq
  exact hd.mem x

end

theorem wakeWaiter_spec (h : Sound p R Q S D loose) {l : List Registration}
    (hQ : Q queue = r :: l) (hl : loose = none ∨ loose = some r.1) (already : Option QueueRef) (result detail : ℕ) (one : Bool) :
    ∃ p', wakeWaiter p (p.waits.queue queue).head already result detail one = (.ok, p') ∧
      Completed p p' r.1 already (some r.2) result detail one ∧
      Woke p p' already 0 (wakesOf p queue result detail one) ∧
      ∃ R' Q', Sound p' R' Q' (S.filter fun x => x.1 ≠ r.1)
        (fun x => (D x).filter (· ≠ r.1)) none := by
  have hr : r ∈ S := h.queued.waits.mem (q := queue) (by simp [hQ])
  have hrow : (p.waits.row r).queue = some queue := (h.queued.waits.queued r queue).2 (by simp [hQ])
  obtain ⟨hv, hm⟩ := (h.queued.linked r.1 r.2).1 hr
  have hb : p.state r.1 = .blocked := ((h.queued.waiting r.1 hv).1 (by omega)).1
  obtain ⟨p', h1, h2, R', Q', h3⟩ := completeWait_spec h hl hv hb (.inr ⟨r.2, rfl, hr⟩) already
    result detail one
  have hhead : (p.waits.queue queue).head = some r := by
    rw [h.queued.waits.lists.head, hQ]
    rfl
  refine ⟨p', ?_, h2, ?_, R', Q', h3⟩
  · unfold wakeWaiter
    rw [hhead, registrationThread_live h.queued.live hr]
    exact h1
  · refine (h2.woke h hv hb h3 (e := .woken r.2 result detail one) rfl rfl).mono le_rfl ?_
    rintro t e ⟨rfl, rfl⟩
    exact ⟨r.2, hrow, rfl⟩

theorem WaitShape.length_lt {w w' : WaitTable} (h : WaitShape w Q S) (h' : WaitShape w' Q' S') {q : QueueRef}
    (hsub : ∀ r ∈ Q' q, r ∈ Q q) (hr : r ∈ Q q) (hr' : r ∉ Q' q) :
    (Q' q).length < (Q q).length := by
  rw [← toFinset_card_of_nodup (h.lists.nodup q),
    ← toFinset_card_of_nodup (h'.lists.nodup q)]
  refine card_lt_card ?_
  rw [ssubset_iff_of_subset fun x hx => mem_toFinset.2 (hsub x (mem_toFinset.1 hx))]
  exact ⟨r, mem_toFinset.2 hr, fun hm => hr' (mem_toFinset.1 hm)⟩

theorem wakeQueue_spec (queue : QueueRef) (result detail : ℕ) (one : Bool) :
    ∀ (fuel : ℕ) {p : Pool} {R : ℕ → List Slot} {Q : QueueRef → List Registration}
      {S : Finset Registration} {D : Slot → List Slot} (woken : ℕ), Sound p R Q S D none →
      (Q queue).length ≤ fuel →
      ∃ p' n, wakeQueue queue result detail one fuel p woken = ((.ok, p'), n) ∧
        Woke p p' (some queue) 0 (wakesOf p queue result detail one) ∧
        (∀ r, (p'.waits.row r).queue ≠ some queue) ∧
        ∀ x, p'.state x = .dead → p.state x = .dead := by
  intro fuel
  induction fuel with
  | zero =>
    intro p R Q S D woken h hl
    have hnil : Q queue = [] := eq_nil_of_length_eq_zero (Nat.le_zero.1 hl)
    refine ⟨p, woken, ?_, ⟨⟨R, Q, S, D, h⟩, .refl p _ _, .refl p, fun _ _ => rfl, rfl⟩,
      fun r hr => ?_, fun _ hx => hx⟩
    · unfold wakeQueue
      rw [if_pos (by rw [h.queued.waits.count, hnil]; rfl)]
    · have := (h.queued.waits.queued r queue).1 hr
      simp [hnil] at this
  | succ fuel ih =>
    intro p R Q S D woken h hl
    rcases hQ : Q queue with _ | ⟨r, l⟩
    · refine ⟨p, woken, ?_, ⟨⟨R, Q, S, D, h⟩, .refl p _ _, .refl p, fun _ _ => rfl, rfl⟩,
        fun r hr => ?_, fun _ hx => hx⟩
      · unfold wakeQueue
        rw [if_pos (by rw [h.queued.waits.count, hQ]; rfl)]
      · have := (h.queued.waits.queued r queue).1 hr
        simp [hQ] at this
    · obtain ⟨p₁, h1, h2, h3, R₁, Q₁, h4⟩ := wakeWaiter_spec h hQ (.inl rfl) (some queue) result
        detail one
      have hmem : ∀ x, x ∈ Q₁ queue ↔ x ∈ Q queue ∧ x.1 ≠ r.1 := fun x => by
        rw [← h4.queued.waits.queued, ← h.queued.waits.queued, h2.row]
        split_ifs with hx <;> simp [hx]
      have hlt : (Q₁ queue).length < (Q queue).length :=
        WaitShape.length_lt h.queued.waits h4.queued.waits (fun x hx => ((hmem x).1 hx).1)
          (r := r) (by simp [hQ]) fun hx => ((hmem r).1 hx).2 rfl
      obtain ⟨p', n, h5, h6, h7, h8⟩ := ih (woken + 1) h4 (by omega)
      refine ⟨p', n, ?_, h3.trans (h6.mono le_rfl ?_), h7, fun x hx => ?_⟩
      · unfold wakeQueue
        rw [if_neg (by rw [h.queued.waits.count, hQ]; simp)]
        simp only [h1]
        exact h5
      · rintro t e ⟨m, hm, rfl⟩
        rw [h2.row] at hm
        split_ifs at hm
        exact ⟨m, hm, rfl⟩
      · obtain ⟨prio, rq, w, dn, d, rfl, -⟩ := h2.eq
        have h9 : update p.state r.1 .ready x = .dead := h8 x hx
        rcases eq_or_ne x r.1 with rfl | hne
        · rw [update_self] at h9
          exact absurd h9 (by simp)
        · rwa [update_of_ne hne] at h9

theorem Sound.advance (h : Sound p R Q S D loose) (queue : QueueRef) :
    Sound { p with waits := p.waits.advance queue } R Q S D loose := by
  have ha : Advanced p.waits (p.waits.advance queue) (· = queue) :=
    (Advanced.refl p.waits (A := fun _ => False) (by simp)).advance (by simp) (by simp)
  refine ⟨h.queued.advanced ha, { h.donated with }, { h.steady with sequence := fun q => ?_ }⟩
  by_cases hq : q = queue
  · rw [ha.advanced q hq]
    exact kernelGenerationNext_pos _
  · rw [ha.kept q hq]
    exact h.steady.sequence q

theorem moved_advance (p : Pool) (queue q : QueueRef) :
    Moved p { p with waits := p.waits.advance queue } q (if q = queue then 1 else 0) := by
  unfold Moved WaitTable.advance WaitTable.setQueue
  split_ifs with hq
  · simp [hq]
  · simp [hq]

theorem Woke.advance (h : Sound p R Q S D none) (queue : QueueRef) (W : Slot → Ending → Prop) :
    Woke p { p with waits := p.waits.advance queue } none 1 W := by
  refine ⟨⟨R, Q, S, D, h.advance queue⟩, ⟨rfl, rfl, rfl, rfl, rfl, fun _ => .inl rfl,
    fun _ => .inl rfl, fun t => .inr (.inl ⟨?_, rfl⟩), fun q => ?_⟩,
    ⟨⟨rfl, rfl, rfl⟩, fun _ _ hxy => hxy⟩, fun _ _ => rfl, rfl⟩
  · exact ⟨rfl, rfl, fun _ => rfl, Iff.rfl, rfl, rfl, rfl, rfl, rfl, rfl⟩
  refine ⟨if q = queue then 1 else 0, ?_, moved_advance p queue q⟩
  show (if q = queue then 1 else 0) + spent p ≤ spent p + 1
  split_ifs <;> omega

theorem Progress.trans_advanced (h : Progress p p₁ none k W)
    (hm : ∃ n, 0 < n ∧ n + spent p ≤ spent p₁ + k ∧ Moved p p₁ queue n)
    (h' : Progress p₁ p₂ (some queue) k' W) : Progress p p₂ none (k + k') W := by
  have hweak : Progress p₁ p₂ (some queue) k' W → Progress p p₁ (some queue) k W → Progress p p₂
      (some queue) (k + k') W := fun h1 h2 => h2.trans h1
  have h₁ : Progress p p₁ (some queue) k W := { h with
    thread := fun t => by
      rcases h.thread t with h1 | h1 | ⟨e, h1, h2⟩
      · exact .inl h1
      · exact .inr (.inl h1)
      · exact .inr (.inr ⟨e, h1, { h2 with advanced := fun q _ => h2.advanced q (by simp) }⟩) }
  have h₂ := hweak h' h₁
  obtain ⟨n, h1, h2, h3⟩ := hm
  obtain ⟨m, h4, h5⟩ := h'.moved queue
  refine { h₂ with thread := fun t => ?_ }
  rcases h₂.thread t with h6 | h6 | ⟨e, h6, h7⟩
  · exact .inl h6
  · exact .inr (.inl h6)
  · refine .inr (.inr ⟨e, h6, { h7 with advanced := fun q _ hw => ?_ }⟩)
    by_cases hq : q = queue
    · subst hq
      exact ⟨m + n, by omega, by omega, h3.trans h5⟩
    · exact h7.advanced q (by simpa using hq) hw

theorem Woke.trans_advanced (h : Woke p p₁ none k W)
    (hm : ∃ n, 0 < n ∧ n + spent p ≤ spent p₁ + k ∧ Moved p p₁ queue n)
    (h' : Woke p₁ p₂ (some queue) k' W) : Woke p p₂ none (k + k') W :=
  ⟨h'.healthy, h.progress.trans_advanced hm h'.progress, h.released.trans h'.released,
    fun x hx => (h'.suspended x hx).trans (h.suspended x (h'.progress.dead_mono hx)),
    h'.live.trans h.live⟩

theorem advance_moves (p : Pool) (queue : QueueRef) :
    ∃ n, 0 < n ∧ n + spent p ≤ spent { p with waits := p.waits.advance queue } + 1
      ∧ Moved p { p with waits := p.waits.advance queue } queue n := by
  refine ⟨1, one_pos, (Nat.add_comm 1 _).le, ?_⟩
  have := moved_advance p queue queue
  rwa [if_pos rfl] at this

theorem kernelThreadWakeAllDetail_spec (h : Sound p R Q S D none) (queue : QueueRef)
    (result detail : ℕ) (one : Bool) :
    ∃ p' n, kernelThreadWakeAllDetail p queue result detail one = ((.ok, p'), n) ∧
      Woke p p' none 1 (wakesOf p queue result detail one) ∧
      ∀ r, (p'.waits.row r).queue ≠ some queue := by
  have hlen : (Q queue).length ≤ (p.waits.queue queue).count := (h.queued.waits.count queue).ge
  obtain ⟨p', n, h1, h2, h3, -⟩ := wakeQueue_spec queue result detail one _ 0 (h.advance queue) hlen
  refine ⟨p', n, ?_, (Woke.advance h queue _).trans_advanced (advance_moves p queue) h2, h3⟩
  unfold kernelThreadWakeAllDetail
  rw [if_neg (by simp [validWaitQueueHeader_of h.queued.waits h.queued.live queue]), h1]

theorem wakeDeathWaiters_spec (h : Sound p R Q S D none) (hv : validThread p t) (result : ℕ) :
    ∃ p' n, wakeDeathWaiters p t result = ((.ok, p'), n) ∧
      Woke { p with waits := p.waits.advance (.death t) } p' (some (.death t)) 0
        (wakesOf p (.death t) result (if result = astraSyscallOk then p.exitStatus t else 0) true)
      ∧ ∀ x, p'.state x = .dead → p.state x = .dead := by
  have hlen : (Q (.death t)).length ≤ (p.waits.queue (.death t)).count :=
    (h.queued.waits.count (.death t)).ge
  obtain ⟨p', n, h1, h2, -, h3⟩ := wakeQueue_spec (.death t) result
    (if result = astraSyscallOk then p.exitStatus t else 0) true _ 0 (h.advance (.death t)) hlen
  refine ⟨p', n, ?_, h2, h3⟩
  unfold wakeDeathWaiters
  rw [if_neg (by simp [hv]),
    if_neg (by simp [validWaitQueueHeader_of h.queued.waits h.queued.live (.death t)]), h1]

theorem kernelThreadWakeOne_spec (h : Sound p R Q S D loose) (queue : QueueRef)
    (hl : ∀ r ∈ Q queue, loose = none ∨ loose = some r.1) (result : ℕ) :
    (Q queue = [] ∧ kernelThreadWakeOne p queue result
        = ((.noRunnable, { p with waits := p.waits.advance queue }), none)) ∨
      ∃ r l p', Q queue = r :: l ∧ kernelThreadWakeOne p queue result = ((.ok, p'), some r.1) ∧
        Woke { p with waits := p.waits.advance queue } p' (some queue) 0
          (fun t e => t = r.1 ∧ e = .woken r.2 result 0 false) ∧
        Completed { p with waits := p.waits.advance queue } p' r.1 (some queue) (some r.2) result 0
          false := by
  have hgate := validWaitQueueHeader_of h.queued.waits h.queued.live queue
  have hcount : ((p.waits.advance queue).queue queue).count = (Q queue).length :=
    (h.advance queue).queued.waits.count queue
  rcases hQ : Q queue with _ | ⟨r, l⟩
  · refine .inl ⟨rfl, ?_⟩
    unfold kernelThreadWakeOne
    rw [if_neg (by simp [hgate]), if_pos (by rw [hcount, hQ]; rfl)]
  · refine .inr ⟨r, l, ?_⟩
    have hr : r ∈ S := h.queued.waits.mem (q := queue) (by simp [hQ])
    obtain ⟨hv, hm⟩ := (h.queued.linked r.1 r.2).1 hr
    have hb : p.state r.1 = .blocked := ((h.queued.waiting r.1 hv).1 (by omega)).1
    obtain ⟨p', h1, h2, -, R', Q', h3⟩ := wakeWaiter_spec (h.advance queue) hQ (hl r (by simp [hQ]))
      (some queue) result 0 false
    have hhead : ((p.waits.advance queue).queue queue).head = some r := by
      have := (h.advance queue).queued.waits.lists.head queue
      rwa [hQ] at this
    refine ⟨p', rfl, ?_, h2.woke (h.advance queue) hv hb h3 rfl rfl, h2⟩
    unfold kernelThreadWakeOne
    rw [if_neg (by simp [hgate]), if_neg (by rw [hcount, hQ]; simp)]
    simp only [hhead] at h1
    simp only [hhead, h1, registrationThread_live (h.advance queue).queued.live hr]

theorem Completed.state
    (hc : Completed p p' t already member result detail one) : p'.state t = .ready := by
  obtain ⟨prio, rq, w, dn, d, rfl, -⟩ := hc.eq
  exact update_self ..

theorem kernelThreadCancelWait_spec (h : Sound p R Q S D none) (t : Slot) (result : ℕ) :
    (∃ status, status ≠ .ok ∧ kernelThreadCancelWait p t result = (status, p) ∧
        ¬ (validThread p t ∧ p.state t = .blocked ∧ result ≠ 0)) ∨
      ∃ p', kernelThreadCancelWait p t result = (.ok, p') ∧ p'.state t = .ready ∧
        Woke p p' none 0 fun x e => x = t ∧ e = .ended result := by
  unfold kernelThreadCancelWait
  by_cases hv : ¬ validThread p t ∨ result = 0
  · refine .inl ⟨.invalidArgument, by simp, by rw [if_pos hv], fun ⟨h1, _, h2⟩ => ?_⟩
    exact hv.elim (· h1) h2
  rw [if_neg hv]
  push Not at hv
  by_cases hb : p.state t ≠ .blocked ∨ p.waits.waitMemberCount t = 0
  · refine .inl ⟨.invalidState, by simp, by rw [if_pos hb], fun ⟨_, h1, _⟩ => ?_⟩
    exact hb.elim (· h1) ((h.queued.waiting t hv.1).2 ⟨h1, by simp⟩)
  rw [if_neg hb]
  push Not at hb
  obtain ⟨p', h1, h2, R', Q', h3⟩ := completeWait_spec h (.inl rfl) hv.1 hb.1 (.inl rfl) none
    result 0 false
  exact .inr ⟨p', h1, h2.state, h2.woke h hv.1 hb.1 h3 rfl rfl⟩

theorem kernelThreadCallComplete_spec (h : Sound p R Q S D none) (t : Slot)
    (result size handleCount replier : ℕ) :
    (∃ status, status ≠ .ok ∧
        kernelThreadCallComplete p t result size handleCount replier = (status, p)) ∨
      ∃ p', kernelThreadCallComplete p t result size handleCount replier = (.ok, p') ∧
        Woke p p' none 1 fun x e => x = t ∧ e = .replied result size handleCount replier := by
  unfold kernelThreadCallComplete
  by_cases hgate : ¬ validThread p t ∨ p.call t = 0 ∨ (p.waits.queue (.call t)).count = 0
  · exact .inl ⟨.invalidState, by simp, by rw [if_pos hgate]⟩
  rw [if_neg hgate]
  push Not at hgate
  obtain ⟨hv, -, hcount⟩ := hgate
  right
  obtain ⟨data, hdata⟩ : ∃ data, data = update p.data t
      (update (update (update (p.data t) 1 size) 2 handleCount) 3 replier) := ⟨_, rfl⟩
  obtain ⟨p₁, hp₁⟩ : ∃ p₁, p₁ = { p with data := data, call := update p.call t 0 } := ⟨_, rfl⟩
  have hset : { (((p.setData t 1 size).setData t 2 handleCount).setData t 3 replier) with
      call := update p.call t 0 } = p₁ := by
    rw [hp₁, hdata]
    simp [Pool.setData]
  have hsound : Sound p₁ R Q S D (some t) := by
    rw [hp₁]
    refine ⟨{ h.queued with }, { h.donated with kind := fun r x hx hxt => ?_ },
      { h.steady with }⟩
    have hne : x ≠ t := by simpa using Ne.symm hxt
    simpa only [WaitsFor, update_of_ne hne] using h.donated.kind r x hx (by simp)
  have honly : ∀ r ∈ Q (.call t), r = (t, 0) := fun r hr => (h.queued.callQueue t r hr).1
  rcases kernelThreadWakeOne_spec hsound (.call t)
    (fun r hr => .inr (by rw [honly r hr])) result with ⟨hnil, -⟩ | ⟨r, l, p', hQ, h1, h2, h3⟩
  · rw [h.queued.waits.count, hnil] at hcount
    exact absurd rfl hcount
  obtain rfl : r = (t, 0) := honly r (by simp [hQ])
  refine ⟨p', ?_, h2.healthy, ?_, ?_, ?_, ?_⟩
  · have hcall : (((p.setData t 1 size).setData t 2 handleCount).setData t 3 replier).call
        = p.call := rfl
    simp only [hcall, hset, h1, if_true]
  · have hprog := h2.progress
    have hst := h3.state
    rw [hp₁] at hprog
    refine ⟨hprog.occupied, hprog.threadSlots, hprog.id, hprog.processSlot, hprog.nextCall,
      fun x => ?_, hprog.state, fun x => ?_, fun q => ?_⟩
    · rcases hprog.call x with hc | hc
      · rcases eq_or_ne x t with rfl | hxt
        · exact .inr (hc.trans (update_self ..))
        · exact .inl (hc.trans (update_of_ne hxt _ _))
      · exact .inr hc
    · rcases eq_or_ne x t with rfl | hxt
      · right; right
        refine ⟨_, ⟨rfl, rfl⟩, ?_⟩
        rcases hprog.thread x with h4 | ⟨-, h4⟩ | ⟨e, ⟨-, rfl⟩, h4⟩
        · obtain ⟨hv', hm⟩ := (h.queued.linked x 0).1 (h.queued.waits.mem (q := .call x) (by simp [hQ]))
          exact absurd ((h.queued.waiting x hv').1 (by omega)).1 h4.before
        · obtain ⟨hv', hm⟩ := (h.queued.linked x 0).1 (h.queued.waits.mem (q := .call x) (by simp [hQ]))
          have hb := ((h.queued.waiting x hv').1 (by omega)).1
          rw [hst] at h4
          exact absurd (h4.trans hb) (by simp)
        · refine ⟨h4.before, h4.after, h4.members, h4.row, h4.heap, h4.observer, h4.notices, ?_,
            fun q _ hw => ?_⟩
          · rw [h4.data, hdata]
            simp only [update_self]
            rfl
          · by_cases hq : q = .call x
            · obtain ⟨n, h5, h6⟩ := hprog.moved q
              have h7 := moved_advance p (.call x) q
              rw [if_pos hq] at h7
              have h8 : n + spent p ≤ spent p' + 0 := h5
              exact ⟨n + 1, by omega, by omega, Moved.trans h7 h6⟩
            · obtain ⟨n, h5, h6, h7⟩ := h4.advanced q (by simpa using hq) hw
              have h8 := moved_advance p (.call x) q
              rw [if_neg hq] at h8
              have h9 : n + spent p ≤ spent p' + 0 := h6
              exact ⟨n, h5, by omega, Moved.trans h8 h7⟩
      · have hdx : data x = p.data x := by rw [hdata, update_of_ne hxt]
        have hstill : ∀ {y : Pool}, Still { p with
            data := data, call := update p.call t 0, waits := p.waits.advance (.call t) } y x →
            Still p y x := fun hs => { hs with
          data := hs.data.trans hdx
          call := hs.call.trans (update_of_ne hxt _ _) }
        rcases hprog.thread x with h4 | ⟨h4, h5⟩ | ⟨e, ⟨h4, -⟩, -⟩
        · exact .inl ⟨hstill h4.still, h4.before, h4.after⟩
        · exact .inr (.inl ⟨hstill h4, h5⟩)
        · exact absurd h4 hxt
    · obtain ⟨n, h5, h6⟩ := hprog.moved q
      have h7 := moved_advance p (.call t) q
      refine ⟨n + if q = .call t then 1 else 0, ?_, Moved.trans h7 h6⟩
      show n + (if q = .call t then 1 else 0) + spent p ≤ spent p' + 1
      have h8 : n + spent p ≤ spent p' + 0 := h5
      split_ifs <;> omega
  · have := h2.released
    rw [hp₁] at this
    exact ⟨this.own, this.owner⟩
  · have := h2.suspended
    rw [hp₁] at this
    exact this
  · have := h2.live
    rw [hp₁] at this
    exact this

/-- The waits that time out: those in the heap whose deadline has come. -/
def timeoutOf (p : Pool) (now : ℕ) (t : Slot) (e : Ending) : Prop :=
  t ∈ p.deadlines.heap ∧ p.deadlines.deadlineCycles t ≤ now
    ∧ e = .ended (p.deadlines.deadlineResult t)

theorem Undeadlined.trans {d d' d'' : DeadlineHeap} (h : Undeadlined d d' t)
    (h' : Undeadlined d' d'' t) : Undeadlined d d'' t :=
  ⟨h'.shape, fun x => by rw [h'.mem, h.mem, and_assoc, and_self],
    fun x hx => (h'.cycles x hx).trans (h.cycles x hx),
    fun x hx => (h'.result x hx).trans (h.result x hx)⟩

theorem expireTurn_spec (h : Sound p R Q S D none) (ht : t ∈ p.deadlines.heap) (result : ℕ) :
    ∃ p', ((deadlineRemove p t).andThen fun p => completeWait p t none none result 0 false)
        = (.ok, p') ∧ Completed p p' t none none result 0 false ∧
      ∃ R' Q', Sound p' R' Q' (S.filter fun r => r.1 ≠ t) (fun x => (D x).filter (· ≠ t)) none := by
  obtain ⟨hv, hb⟩ := h.steady.timed t ht
  obtain ⟨d, h1, h2⟩ := deadlineRemove_spec h.steady.heap hv
  have h₁ : Sound { p with deadlines := d } R Q S D none :=
    ⟨{ h.queued with }, { h.donated with }, { h.steady with
      heap := h2.shape
      timed := fun x hx => h.steady.timed x ((h2.mem x).1 hx).1 }⟩
  obtain ⟨p', h3, h4, h5⟩ := completeWait_spec h₁ (.inl rfl) hv hb (.inl rfl) none result 0 false
  refine ⟨p', ?_, ?_, h5⟩
  · rw [h1]
    exact h3
  · obtain ⟨prio, rq, w, dn, d', h6, h7, h8, h9⟩ := h4.eq
    exact ⟨prio, rq, w, dn, d', h6, h7, h2.trans h8, h9⟩

theorem expireDeadlines_spec (now : ℕ) :
    ∀ (fuel : ℕ) {p : Pool} {R : ℕ → List Slot} {Q : QueueRef → List Registration}
      {S : Finset Registration} {D : Slot → List Slot} (expired highest : ℕ),
      Sound p R Q S D none → p.deadlines.heap.length ≤ fuel →
      ∃ p' n m, expireDeadlines now fuel p expired highest = ((.ok, p'), n, m) ∧
        Woke p p' none 0 (timeoutOf p now) ∧
        ∀ t, p'.deadlines.heap.head? = some t → now < p'.deadlines.deadlineCycles t := by
  intro fuel
  induction fuel with
  | zero =>
    intro p R Q S D expired highest h hl
    have hnil : p.deadlines.heap = [] := eq_nil_of_length_eq_zero (Nat.le_zero.1 hl)
    refine ⟨p, expired, highest, ?_, ⟨⟨R, Q, S, D, h⟩, .refl p _ _, .refl p, fun _ _ => rfl, rfl⟩, ?_⟩
    · unfold expireDeadlines
      rw [hnil]
      rfl
    · simp [hnil]
  | succ fuel ih =>
    intro p R Q S D expired highest h hl
    rcases hheap : p.deadlines.heap with _ | ⟨t, heap⟩
    · refine ⟨p, expired, highest, ?_, ⟨⟨R, Q, S, D, h⟩, .refl p _ _, .refl p, fun _ _ => rfl, rfl⟩, ?_⟩
      · unfold expireDeadlines
        rw [hheap]
        rfl
      · simp [hheap]
    have ht : t ∈ p.deadlines.heap := by simp [hheap]
    obtain ⟨hv, hb⟩ := h.steady.timed t ht
    have hm : p.waits.waitMemberCount t ≠ 0 := (h.queued.waiting t hv).2 ⟨hb, by simp⟩
    by_cases hnow : now < p.deadlines.deadlineCycles t
    · refine ⟨p, expired, highest, ?_, ⟨⟨R, Q, S, D, h⟩, .refl p _ _, .refl p, fun _ _ => rfl, rfl⟩, ?_⟩
      · unfold expireDeadlines
        rw [hheap]
        simp [hv, hnow]
      · simp [hheap, hnow]
    obtain ⟨p₁, h1, h2, R₁, Q₁, h3⟩ := expireTurn_spec h ht (p.deadlines.deadlineResult t)
    have hlt : p₁.deadlines.heap.length < p.deadlines.heap.length := by
      rw [← toFinset_card_of_nodup h3.steady.heap.nodup,
        ← toFinset_card_of_nodup h.steady.heap.nodup]
      refine card_lt_card ?_
      rw [ssubset_iff_of_subset fun x hx => ?_]
      · refine ⟨t, mem_toFinset.2 ht, fun hm => ?_⟩
        exact ((h2.mem_heap t).1 (mem_toFinset.1 hm)).2 rfl
      · exact mem_toFinset.2 ((h2.mem_heap x).1 (mem_toFinset.1 hx)).1
    obtain ⟨p', n, m, h4, h5, h6⟩ := ih (expired + 1)
      (if expired = 0 ∨ highest < p₁.prio.effectivePriority t then p₁.prio.effectivePriority t
        else highest) h3 (by omega)
    refine ⟨p', n, m, ?_, ?_, h6⟩
    · unfold expireDeadlines
      rw [hheap]
      simp only [List.head?_cons, hv, not_true, if_false, hnow, hb, hm, ne_eq, or_self, h1]
      exact h4
    · have hw := h2.woke h hv hb h3 (e := .ended (p.deadlines.deadlineResult t)) rfl rfl
      refine (hw.mono le_rfl ?_).trans (h5.mono le_rfl ?_)
      · rintro x e ⟨rfl, rfl⟩
        exact ⟨ht, by omega, rfl⟩
      · rintro x e ⟨hx, hc, rfl⟩
        obtain ⟨hxp, hxt⟩ := (h2.mem_heap x).1 hx
        obtain ⟨prio, rq, w, dn, d, rfl, -, hd, -⟩ := h2.eq
        refine ⟨hxp, (hd.cycles x hxt).ge.trans hc, ?_⟩
        rw [← hd.result x hxt]

theorem kernelThreadExpireDeadlines_spec (h : Sound p R Q S D none) (now : ℕ) :
    (p.audit = true ∧ kernelThreadExpireDeadlines p now = ((.corrupt, p), 0, 0)) ∨
      ∃ p' n m, kernelThreadExpireDeadlines p now = ((.ok, p'), n, m) ∧
        Woke p p' none 0 (timeoutOf p now) := by
  unfold kernelThreadExpireDeadlines
  split_ifs with ha
  · exact .inl ⟨ha.1, rfl⟩
  · obtain ⟨p', n, m, h1, h2, -⟩ := expireDeadlines_spec now _ 0 0 h le_rfl
    exact .inr ⟨p', n, m, h1, h2⟩

end

end Astra
