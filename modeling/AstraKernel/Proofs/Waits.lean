import AstraKernel.Proofs.Scheduling

/-!
# A wait ends once

From the call that starts a wait to the one that ends it, nothing of the wait changes. The call that
ends it does all that the end of a wait is, and no later one ends it again.
-/

namespace Astra

open Function List

def InWait (p : Pool) (t : Slot) : Prop :=
  validThread p t ∧ p.state t = .blocked

/-- A wait goes on as it was in `p`; its thread may have been given an observer. -/
structure Waiting (p p' : Pool) (t : Slot) : Prop where
  inWait : InWait p' t
  id : p'.id t = p.id t
  members : p'.waits.waitMemberCount t = p.waits.waitMemberCount t
  mode : p'.waits.waitMode t = p.waits.waitMode t
  row : ∀ m, (p'.waits.row (t, m)).queue = (p.waits.row (t, m)).queue
  heap : t ∈ p'.deadlines.heap ↔ t ∈ p.deadlines.heap
  cycles : p'.deadlines.deadlineCycles t = p.deadlines.deadlineCycles t
  timeout : p'.deadlines.deadlineResult t = p.deadlines.deadlineResult t
  notices : noticesOf p' t = noticesOf p t
  data : p'.data t = p.data t
  call : p'.call t = p.call t

/-- A wait ends as `e`, once and for all: off every queue and the heap, each of its queues advanced,
its observer told, and what `e` brings in the thread's context. -/
structure Completes (p p' : Pool) (t : Slot) (e : Ending) : Prop where
  before : p.state t = .blocked
  after : p'.state t = .ready ∨ p'.state t = .dead
  members : p'.waits.waitMemberCount t = 0
  queues : ∀ m, (p'.waits.row (t, m)).queue = none
  heap : t ∉ p'.deadlines.heap
  advanced : ∀ q, WaitsOn p.waits t q → ∃ n, 0 < n ∧ n < 2 ^ 32 - 1 ∧ Moved p p' q n
    ∧ (p'.waits.queue q).sequence ≠ (p.waits.queue q).sequence
  observer : p'.waitObserver t = none
  told : noticesOf p' t = noticesOf p t ++ notice p t e.result
  context : p'.data t = e.data (p.data t) (p.waits.waitMode t)

/-- The calls that cannot leave a thread's wait as it is. -/
def Decides (p : Pool) (t : Slot) : ThreadOp → Prop
  | .wakeOne queue _ => ∃ m, (p.waits.queue queue).head = some (t, m)
  | .wakeAll queue _ => WaitsOn p.waits t queue
  | .wakeAllDetail queue _ _ _ => WaitsOn p.waits t queue
  | .cancelWait x result => x = t ∧ result ≠ 0
  | .retireProcess process _ => p.processSlot t = process
  | _ => False

section

variable {p p' p₀ p₁ : Pool} {t : Slot} {e : Ending} {op : ThreadOp}

theorem Waiting.refl (h : InWait p t) : Waiting p p t :=
  ⟨h, rfl, rfl, rfl, fun _ => rfl, Iff.rfl, rfl, rfl, rfl, rfl, rfl⟩

theorem Waiting.trans (h : Waiting p p₁ t) (h' : Waiting p₁ p' t) : Waiting p p' t where
  inWait := h'.inWait
  id := h'.id.trans h.id
  members := h'.members.trans h.members
  mode := h'.mode.trans h.mode
  row m := (h'.row m).trans (h.row m)
  heap := h'.heap.trans h.heap
  cycles := h'.cycles.trans h.cycles
  timeout := h'.timeout.trans h.timeout
  notices := h'.notices.trans h.notices
  data := h'.data.trans h.data
  call := h'.call.trans h.call

theorem Still.waiting (h : Still p p' t) (hw : InWait p' t) (hid : p'.id t = p.id t) :
    Waiting p p' t :=
  ⟨hw, hid, h.members, h.mode, h.row, h.heap, h.cycles, h.timeout, h.notices, h.data, h.call⟩

theorem iterate_generation {s : ℕ} (hs : 0 < s) (hs' : s < 2 ^ 32) (n : ℕ) :
    kernelGenerationNext^[n] s = (s - 1 + n) % (2 ^ 32 - 1) + 1 := by
  induction n with
  | zero =>
    rw [iterate_zero_apply]
    omega
  | succ n ih =>
    rw [iterate_succ_apply', ih]
    unfold kernelGenerationNext
    split_ifs <;> omega

theorem iterate_generation_ne {s n : ℕ} (hs : 0 < s) (hs' : s < 2 ^ 32) (hn : 0 < n)
    (hn' : n < 2 ^ 32 - 1) : kernelGenerationNext^[n] s ≠ s := by
  rw [iterate_generation hs hs']
  omega

theorem Ended.completes (h : Ended p p' none 1 t e) (hp : Healthy p)
    (hs : p'.threadSlots = p.threadSlots) : Completes p p' t e where
  before := h.before
  after := h.after
  members := h.members
  queues := h.row
  heap := h.heap
  advanced q hq := by
    obtain ⟨R, Q, S, D, hp⟩ := hp
    obtain ⟨n, h1, h2, h3⟩ := h.advanced q (by simp) hq
    have h4 := spent_le p'
    have h5 : p.threadSlots ≤ 65535 := hp.queued.slots
    have hn : n < 2 ^ 32 - 1 := by omega
    have hseq := hp.steady.sequence q
    refine ⟨n, h1, hn, h3, ?_⟩
    rw [show (p'.waits.queue q).sequence = _ from h3]
    exact iterate_generation_ne hseq.1 hseq.2 h1 hn
  observer := h.observer
  told := h.notices
  context := h.data

theorem step_waiting (h : Healthy p) (hs : Sane p op) (hw : InWait p t) :
    Waiting p (p.step op).2 t ∨ ∃ e, endingsOf p op t e ∧ Completes p (p.step op).2 t e := by
  obtain ⟨hv, hb⟩ := hw
  have hvalid : ∀ {p' : Pool}, p'.occupied t = p.occupied t → validThread p' t := by
    intro p' ho
    unfold validThread
    rw [ho]
    exact hv
  obtain ⟨-, heff⟩ := step_effect h op hs
  generalize hp' : (p.step op).2 = p' at heff
  cases heff with
  | calm hc =>
    exact .inl ((hc.still t).waiting ⟨hvalid (congrFun hc.occupied t), (hc.blocked t).2 hb⟩
      (congrFun hc.id t))
  | aside x hx =>
    have hne : t ≠ x := by
      rintro rfl
      exact hx.before hv hb
    exact .inl ((hx.still t hne).waiting ⟨hvalid (hx.occupied t hne), (hx.state t hne).trans hb⟩
      (hx.id t hne))
  | began x hC hx =>
    have hne : t ≠ x := by
      rintro rfl
      have := hx.running
      simp [hb] at this
    obtain ⟨rows, rfl⟩ := hx.eq
    left
    exact ⟨⟨hv, hb⟩, rfl, rfl, rfl, fun _ => rfl, Iff.rfl, rfl, rfl, rfl, rfl, update_of_ne hne _ _⟩
  | started x data specs deadline timeoutResult mode hB hd hx =>
    have hne : t ≠ x := by
      rintro rfl
      have := hx.before
      simp [hb] at this
    have hst := hx.others t hne
    obtain ⟨w, d, hp⟩ := hx.eq
    have hstate : p'.state t = .blocked := by
      rw [hp]
      exact (update_of_ne hne _ _).trans hb
    have hocc : p'.occupied t = p.occupied t := by rw [hp]
    have hid : p'.id t = p.id t := by rw [hp]
    left
    exact ⟨⟨hvalid hocc, hstate⟩, hid, hst.members, hst.mode, hst.row, hst.heap, hst.cycles,
      hst.timeout, hst.notices, hst.data.trans (hd t hne), hst.call⟩
  | observed x observer hx hn hp =>
    subst hp
    left
    exact ⟨⟨hv, hb⟩, rfl, rfl, rfl, fun _ => rfl, Iff.rfl, rfl, rfl, rfl, rfl, rfl⟩
  | ended hx =>
    rcases hx.thread t with h1 | ⟨h1, h2⟩ | ⟨e, h1, h2⟩
    · exact absurd hb h1.before
    · exact .inl (h1.waiting ⟨hvalid (congrFun hx.occupied t), h2.trans hb⟩ (congrFun hx.id t))
    · exact .inr ⟨e, h1, h2.completes h hx.threadSlots⟩
  | reaped hx =>
    have hv' := hx.blocked t hv hb
    exact .inl ((hx.still t).waiting ⟨hv', (hx.valid t hv').2.trans hb⟩ (congrFun hx.id t))

theorem step_quiet (h : Healthy p) (hs : Sane p op) (hw : p.state t ≠ .blocked)
    (hB : ¬ op.blocks t) :
    (p.step op).2.state t ≠ .blocked ∧ noticesOf (p.step op).2 t = noticesOf p t := by
  obtain ⟨-, heff⟩ := step_effect h op hs
  generalize hp' : (p.step op).2 = p' at heff
  cases heff with
  | calm hc => exact ⟨fun h1 => hw ((hc.blocked t).1 h1), (hc.still t).notices⟩
  | aside x hx =>
    rcases eq_or_ne t x with rfl | hne
    · exact ⟨hx.after, hx.notices⟩
    · exact ⟨hx.state t hne ▸ hw, (hx.still t hne).notices⟩
  | began x hC hx =>
    obtain ⟨rows, rfl⟩ := hx.eq
    exact ⟨hw, rfl⟩
  | started x data specs deadline timeoutResult mode hx hd hst =>
    have hne : t ≠ x := by
      rintro rfl
      exact hB hx
    have hnotices := (hst.others t hne).notices
    obtain ⟨w, d, hp⟩ := hst.eq
    have hstate : p'.state t = p.state t := by
      rw [hp]
      exact update_of_ne hne _ _
    exact ⟨hstate ▸ hw, hnotices⟩
  | observed x observer hx hn hp =>
    subst hp
    exact ⟨hw, rfl⟩
  | ended hx =>
    rcases hx.thread t with h1 | ⟨h1, h2⟩ | ⟨e, -, h2⟩
    · refine ⟨?_, h1.still.notices⟩
      rcases h1.after with h3 | h3
      · exact h3 ▸ hw
      · simp [h3]
    · exact ⟨h2 ▸ hw, h1.notices⟩
    · exact absurd h2.before hw
  | reaped hx => exact ⟨fun h1 => hw (hx.state t h1), (hx.still t).notices⟩

theorem not_waiting_of_emptied {queue : QueueRef} (hq : WaitsOn p.waits t queue)
    (he : ∀ r, (p'.waits.row r).queue ≠ some queue) : ¬ Waiting p p' t := by
  intro hw
  obtain ⟨m, -, hm⟩ := hq
  exact he (t, m) ((hw.row m).trans hm)

theorem not_waiting_of_decides (h : Healthy p) (hs : Sane p op) (hw : InWait p t)
    (hd : Decides p t op) : ¬ Waiting p (p.step op).2 t := by
  obtain ⟨R, Q, S, D, hp⟩ := h
  cases op with
  | wakeOne queue result =>
    obtain ⟨m, hm⟩ := hd
    rcases kernelThreadWakeOne_spec hp queue (fun _ _ => .inl rfl) result with
      ⟨hQ, -⟩ | ⟨r, l, p', hQ, he, -, hc⟩
    · have := hp.queued.waits.lists.head queue
      rw [hQ, hm] at this
      simp at this
    · have hr := hp.queued.waits.lists.head queue
      rw [hQ, hm] at hr
      obtain rfl : (t, m) = r := Option.some.inj hr
      intro hwait
      have he' : (p.step (.wakeOne queue result)).2 = p' := congrArg (·.1.2) he
      rw [he'] at hwait
      have := hc.state.symm.trans hwait.inWait.2
      simp at this
  | wakeAll queue result =>
    obtain ⟨p', n, he, -, hempty⟩ := kernelThreadWakeAllDetail_spec hp queue result 0 false
    have he' : (p.step (.wakeAll queue result)).2 = p' := congrArg (·.1.2) he
    rw [he']
    exact not_waiting_of_emptied hd hempty
  | wakeAllDetail queue result detail one =>
    obtain ⟨p', n, he, -, hempty⟩ := kernelThreadWakeAllDetail_spec hp queue result detail one
    have he' : (p.step (.wakeAllDetail queue result detail one)).2 = p' := congrArg (·.1.2) he
    rw [he']
    exact not_waiting_of_emptied hd hempty
  | cancelWait x result =>
    obtain ⟨rfl, hr⟩ := hd
    rcases kernelThreadCancelWait_spec hp x result with ⟨-, -, -, hno⟩ | ⟨p', he, hready, -⟩
    · exact absurd ⟨hw.1, hw.2, hr⟩ hno
    · intro hwait
      have he' : (p.step (.cancelWait x result)).2 = p' := congrArg Prod.snd he
      rw [he'] at hwait
      have := hready.symm.trans hwait.inWait.2
      simp at this
  | retireProcess process result =>
    obtain ⟨p₁, hr, he⟩ := retireProcessThreads_spec ⟨R, Q, S, D, hp⟩ hs.2 (by simp) result false
    have hdead : p₁.state t = .dead := by
      refine hr.dead t ⟨hp.queued.slot t hw.1, ⟨hw.1, hd, ?_⟩, by simp⟩
      simp [hw.2]
    have hstate : (p.step (.retireProcess process result)).2.state t = .dead := by
      show (retireProcessThreads p process none result false).1.2.state t = .dead
      rw [he]
      split_ifs
      · exact hdead
      · exact hdead
    intro hwait
    have := hstate.symm.trans hwait.inWait.2
    simp at this
  | _ => exact hd.elim

theorem run_quiet {ops : List ThreadOp} (h : Healthy p) (hs : p.Along Sane ops)
    (hw : p.state t ≠ .blocked) (hB : ∀ op ∈ ops, ¬ op.blocks t) :
    (p.run ops).state t ≠ .blocked ∧ noticesOf (p.run ops) t = noticesOf p t := by
  induction ops generalizing p with
  | nil => exact ⟨hw, rfl⟩
  | cons op ops ih =>
    obtain ⟨h1, h2⟩ := step_quiet h hs.1 hw (hB op mem_cons_self)
    obtain ⟨h3, h4⟩ := ih (step_effect h op hs.1).1 hs.2 h1
      fun o ho => hB o (mem_cons_of_mem op ho)
    exact ⟨h3, h4.trans h2⟩

theorem Pool.Along.append {P : Pool → ThreadOp → Prop} {ops ops' : List ThreadOp} :
    p.Along P (ops ++ ops') ↔ p.Along P ops ∧ (p.run ops).Along P ops' := by
  induction ops generalizing p with
  | nil => simp [Pool.Along, Pool.run]
  | cons op ops ih => simp [Pool.Along, Pool.run, ih, and_assoc]

/-- A wait goes on through all of `ops`, and no call of them decides it. -/
def Pends (p₀ p : Pool) (t : Slot) (ops : List ThreadOp) : Prop :=
  ∀ before after, ops = before ++ after → Waiting p₀ (p.run before) t
    ∧ ∀ op ∈ after.head?, ¬ Decides (p.run before) t op

/-- One call of `ops` ends a wait as `e`, the ones before it leave it as it is, and the ones after it
do not end it again. -/
def EndsOnce (p₀ p : Pool) (t : Slot) (ops : List ThreadOp) (e : Ending) : Prop :=
  ∃ before op after, ops = before ++ op :: after ∧ Pends p₀ p t before ∧
    endingsOf (p.run before) op t e ∧ Completes (p.run before) (p.run (before ++ [op])) t e ∧
    ∀ quiet loud, after = quiet ++ loud → (∀ o ∈ quiet, ¬ o.blocks t) →
      (p.run (before ++ op :: quiet)).state t ≠ .blocked ∧
      noticesOf (p.run (before ++ op :: quiet)) t = noticesOf (p.run (before ++ [op])) t

theorem Pends.cons {ops : List ThreadOp} (hw : Waiting p₀ p t) (hd : ¬ Decides p t op)
    (h : Pends p₀ (p.step op).2 t ops) : Pends p₀ p t (op :: ops) := by
  intro before after hsplit
  rcases before with _ | ⟨op', before⟩
  · obtain rfl : op :: ops = after := hsplit
    refine ⟨hw, fun o ho => ?_⟩
    obtain rfl : op = o := Option.some.inj ho
    exact hd
  · obtain ⟨rfl, rfl⟩ := List.cons.inj hsplit
    exact h before after rfl

theorem pends_nil (hw : Waiting p₀ p t) : Pends p₀ p t [] := by
  intro before after hsplit
  obtain ⟨rfl, rfl⟩ := append_eq_nil_iff.1 hsplit.symm
  exact ⟨hw, fun o ho => by simp at ho⟩

theorem run_waiting {ops : List ThreadOp} (h : Healthy p) (hs : p.Along Sane ops)
    (hw : Waiting p₀ p t) : Pends p₀ p t ops ∨ ∃ e, EndsOnce p₀ p t ops e := by
  induction ops generalizing p with
  | nil => exact .inl (pends_nil hw)
  | cons op ops ih =>
    have h' := (step_effect h op hs.1).1
    rcases step_waiting h hs.1 hw.inWait with h1 | ⟨e, h1, h2⟩
    · have hd : ¬ Decides p t op :=
        fun hd => not_waiting_of_decides h hs.1 hw.inWait hd h1
      rcases ih h' hs.2 (hw.trans h1) with h2 | ⟨e, before, o, after, rfl, h3, h4, h5, h6⟩
      · exact .inl (h2.cons hw hd)
      · exact .inr ⟨e, op :: before, o, after, rfl, h3.cons hw hd, h4, h5, h6⟩
    · refine .inr ⟨e, [], op, ops, rfl, pends_nil hw, h1, h2, ?_⟩
      rintro quiet loud rfl hq
      have hb : (p.step op).2.state t ≠ .blocked := by
        rcases h2.after with h3 | h3 <;> simp [h3]
      exact run_quiet h' (Pool.Along.append.1 hs.2).1 hb hq

theorem step_starts (h : Healthy p) (hs : Sane p op) (hn : p.state t ≠ .blocked)
    (hb : (p.step op).2.state t = .blocked) :
    validThread (p.step op).2 t ∧ op.blocks t ∧ ∃ data specs deadline timeoutResult mode,
      Started { p with data := data } (p.step op).2 t specs deadline timeoutResult mode := by
  have heff := (step_effect h op hs).2
  generalize hp' : (p.step op).2 = p' at heff hb
  cases heff with
  | calm hc => exact absurd ((hc.blocked t).1 hb) hn
  | aside x hx =>
    rcases eq_or_ne t x with rfl | hne
    · exact absurd hb hx.after
    · exact absurd ((hx.state t hne).symm.trans hb) hn
  | began x hC hx =>
    obtain ⟨rows, rfl⟩ := hx.eq
    exact absurd hb hn
  | started x data specs deadline timeoutResult mode hB hd hst =>
    obtain ⟨w, d, hp⟩ := hst.eq
    have hx : t = x := by
      by_contra hne
      rw [hp] at hb
      exact hn ((update_of_ne hne _ _).symm.trans hb)
    subst hx
    refine ⟨?_, hB, data, specs, deadline, timeoutResult, mode, hst⟩
    rw [hp]
    exact hst.valid
  | observed x observer hx hn' hp =>
    subst hp
    exact absurd hb hn
  | ended hx =>
    rcases hx.state t with h1 | ⟨h1, -⟩ | h1
    · exact absurd (h1.symm.trans hb) hn
    · exact absurd h1 hn
    · simp [hb] at h1
  | reaped hx => exact absurd (hx.state t hb) hn

theorem step_blockWaitSet_starts (h : Healthy p) {x : Slot} {specs : List KernelThreadWaitSpec}
    {now deadline timeoutResult : ℕ} {rowMemory heapMemory : Bool}
    (hs : Sane p (.blockWaitSet x specs now deadline timeoutResult rowMemory heapMemory))
    (hn : p.state t ≠ .blocked)
    (hb : (p.step (.blockWaitSet x specs now deadline timeoutResult rowMemory heapMemory)).2.state t
      = .blocked) :
    Started p (p.step (.blockWaitSet x specs now deadline timeoutResult rowMemory heapMemory)).2 t
      specs deadline timeoutResult .multiple := by
  obtain ⟨R, Q, S, D, h⟩ := h
  rcases blockWaitSet_spec h specs now deadline timeoutResult .multiple rowMemory heapMemory
    (waitable_of_outer hs.1) with ⟨p', he, -, hst⟩ | ⟨status, w, -, he, -⟩
  · have he' : (p.step (.blockWaitSet x specs now deadline timeoutResult rowMemory heapMemory)).2
        = p' := congrArg Prod.snd he
    rw [he'] at hb ⊢
    obtain ⟨w, d, hp⟩ := hst.eq
    have hx : t = x := by
      by_contra hne
      rw [hp] at hb
      exact hn ((update_of_ne hne _ _).symm.trans hb)
    rwa [hx]
  · have he' : (p.step (.blockWaitSet x specs now deadline timeoutResult rowMemory heapMemory)).2
        = { p with waits := w } := congrArg Prod.snd he
    rw [he'] at hb
    exact absurd hb hn

/-- A thread waits on a mutex of a ready thread of process 1, which another thread then calls. -/
def strandedWait : List ThreadOp :=
  [.allocate 1 101 4096 8192 0 10 ⟨true, true, true⟩, .attachHandle 0 1, .publish 0,
    .allocate 2 102 4096 8192 0 20 ⟨true, true, true⟩, .attachHandle 1 1, .publish 1, .takeNext,
    .blockWaitSet 1 [⟨some (.object 5), 1⟩] 0 kernelThreadDeadlineNever astraSyscallTimedOut true
      true, .mutexAssign 1 (some 0),
    .allocate 3 103 4096 8192 0 30 ⟨true, true, true⟩, .attachHandle 2 1, .publish 2, .takeNext,
    .callBegin 2 true, .callBlock 2 0 kernelThreadDeadlineNever true true, .callAssign 2 (some 0)]

end

end Astra
