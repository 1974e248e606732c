import AstraKernel.Proofs.Complete

/-!
# What a step does to the waits

A blocked thread's wait goes on unchanged, or it ends: off every queue and the heap, the observer
told once, the result in the context, and every queue of the wait set advanced.
-/

namespace Astra

open Finset Function List

/-- How a wait ends: by a wake of one of its members, by a timeout or a cancellation, by a reply to
the call it waits in, or by the end of the thread. -/
inductive Ending
  | woken (member result detail : ℕ) (one : Bool)
  | ended (result : ℕ)
  | replied (result size handleCount replier : ℕ)
  | retired (result : ℕ)
  deriving DecidableEq, Repr

def Ending.result : Ending → ℕ
  | .woken _ result _ _ | .ended result | .replied result _ _ _ | .retired result => result

/-- The data registers after a wait in `mode` has ended. -/
def Ending.data (data : ℕ → ℕ) (mode : KernelThreadWaitMode) : Ending → ℕ → ℕ
  | .woken member result detail one => endData data mode (some member) result detail one
  | .ended result => endData data mode none result 0 false
  | .replied result size handleCount replier =>
    endData (update (update (update data 1 size) 2 handleCount) 3 replier) mode (some 0) result 0
      false
  | .retired _ => data

/-- What the observers of a thread have been told. -/
def noticesOf (p : Pool) (t : Slot) : List (Slot × ℕ × ℕ) :=
  p.observed.filter (·.1 = t)

/-- Nothing of a thread's wait has changed. -/
structure Still (p p' : Pool) (t : Slot) : Prop where
  members : p'.waits.waitMemberCount t = p.waits.waitMemberCount t
  mode : p'.waits.waitMode t = p.waits.waitMode t
  row : ∀ m, (p'.waits.row (t, m)).queue = (p.waits.row (t, m)).queue
  heap : t ∈ p'.deadlines.heap ↔ t ∈ p.deadlines.heap
  cycles : p'.deadlines.deadlineCycles t = p.deadlines.deadlineCycles t
  timeout : p'.deadlines.deadlineResult t = p.deadlines.deadlineResult t
  observer : p'.waitObserver t = p.waitObserver t
  notices : noticesOf p' t = noticesOf p t
  data : p'.data t = p.data t
  call : p'.call t = p.call t

theorem Still.refl (p : Pool) (t : Slot) : Still p p t :=
  ⟨rfl, rfl, fun _ => rfl, Iff.rfl, rfl, rfl, rfl, rfl, rfl, rfl⟩

theorem Still.trans {p p₁ p₂ : Pool} {t : Slot} (h : Still p p₁ t) (h' : Still p₁ p₂ t) :
    Still p p₂ t where
  members := h'.members.trans h.members
  mode := h'.mode.trans h.mode
  row m := (h'.row m).trans (h.row m)
  heap := h'.heap.trans h.heap
  cycles := h'.cycles.trans h.cycles
  timeout := h'.timeout.trans h.timeout
  observer := h'.observer.trans h.observer
  notices := h'.notices.trans h.notices
  data := h'.data.trans h.data
  call := h'.call.trans h.call

structure Calm (p p' : Pool) : Prop where
  occupied : p'.occupied = p.occupied
  id : p'.id = p.id
  nextCall : p'.nextCall = p.nextCall
  still : ∀ t, Still p p' t
  blocked : ∀ t, p'.state t = .blocked ↔ p.state t = .blocked

theorem Calm.refl (p : Pool) : Calm p p :=
  ⟨rfl, rfl, rfl, .refl p, fun _ => Iff.rfl⟩

theorem Calm.trans {p p₁ p₂ : Pool} (h : Calm p p₁) (h' : Calm p₁ p₂) : Calm p p₂ where
  occupied := h'.occupied.trans h.occupied
  id := h'.id.trans h.id
  nextCall := h'.nextCall.trans h.nextCall
  still t := (h.still t).trans (h'.still t)
  blocked t := (h'.blocked t).trans (h.blocked t)

/-- A queue has advanced `n` times. -/
def Moved (p p' : Pool) (q : QueueRef) (n : ℕ) : Prop :=
  (p'.waits.queue q).sequence = kernelGenerationNext^[n] (p.waits.queue q).sequence

theorem Moved.trans {p p₁ p₂ : Pool} {q : QueueRef} {n m : ℕ} (h : Moved p p₁ q n)
    (h' : Moved p₁ p₂ q m) : Moved p p₂ q (m + n) := by
  rw [Moved, iterate_add_apply, ← h]
  exact h'

/-- Threads that wait no more, and threads that have ended: what a step can only add to, and what
bounds how often it can advance a queue. -/
def spent (p : Pool) : ℕ :=
  ((Finset.range p.threadSlots).filter fun t => p.state t ≠ .blocked).card
    + ((Finset.range p.threadSlots).filter fun t => p.state t = .dead).card

theorem spent_le (p : Pool) : spent p ≤ 2 * p.threadSlots := by
  refine (Nat.add_le_add (card_filter_le _ _) (card_filter_le _ _)).trans ?_
  rw [card_range]
  omega

/-- A wait has ended; `already` is a queue that had advanced before, and `k` bounds how often the
others did. -/
structure Ended (p p' : Pool) (already : Option QueueRef) (k : ℕ) (t : Slot) (e : Ending) :
    Prop where
  before : p.state t = .blocked
  after : p'.state t = .ready ∨ p'.state t = .dead
  members : p'.waits.waitMemberCount t = 0
  row : ∀ m, (p'.waits.row (t, m)).queue = none
  heap : t ∉ p'.deadlines.heap
  observer : p'.waitObserver t = none
  notices : noticesOf p' t = noticesOf p t ++ notice p t e.result
  data : p'.data t = e.data (p.data t) (p.waits.waitMode t)
  advanced : ∀ q, some q ≠ already → WaitsOn p.waits t q →
    ∃ n, 0 < n ∧ n + spent p ≤ spent p' + k ∧ Moved p p' q n

structure Idle (p p' : Pool) (t : Slot) : Prop where
  still : Still p p' t
  before : p.state t ≠ .blocked
  after : p'.state t = p.state t ∨ p'.state t = .dead

structure Progress (p p' : Pool) (already : Option QueueRef) (k : ℕ) (W : Slot → Ending → Prop) :
    Prop where
  occupied : p'.occupied = p.occupied
  threadSlots : p'.threadSlots = p.threadSlots
  id : p'.id = p.id
  processSlot : p'.processSlot = p.processSlot
  nextCall : p'.nextCall = p.nextCall
  call : ∀ t, p'.call t = p.call t ∨ p'.call t = 0
  state : ∀ t, p'.state t = p.state t ∨ p.state t = .blocked ∧ p'.state t = .ready
    ∨ p'.state t = .dead
  thread : ∀ t, Idle p p' t ∨ (Still p p' t ∧ p'.state t = p.state t)
    ∨ ∃ e, W t e ∧ Ended p p' already k t e
  moved : ∀ q, ∃ n, n + spent p ≤ spent p' + k ∧ Moved p p' q n

section

variable {p p' p₁ p₂ : Pool} {already : Option QueueRef} {k k' : ℕ} {W W' : Slot → Ending → Prop}
  {t : Slot}

/-- A step only leaves threads blocked that were, and never revives a dead one. -/
theorem spent_parts (h : ∀ t, p'.state t = p.state t ∨ p.state t = .blocked ∧ p'.state t = .ready
      ∨ p'.state t = .dead) :
    ((Finset.range p.threadSlots).filter fun t => p.state t ≠ .blocked)
      ⊆ (Finset.range p.threadSlots).filter (fun t => p'.state t ≠ .blocked) ∧
    ((Finset.range p.threadSlots).filter fun t => p.state t = .dead)
      ⊆ (Finset.range p.threadSlots).filter fun t => p'.state t = .dead := by
  constructor <;> intro x hx <;> obtain ⟨h1, h2⟩ := Finset.mem_filter.1 hx <;>
    refine Finset.mem_filter.2 ⟨h1, ?_⟩
  · rcases h x with h3 | ⟨h3, -⟩ | h3
    · rwa [h3]
    · exact absurd h3 h2
    · simp [h3]
  · rcases h x with h3 | ⟨h3, -⟩ | h3
    · rwa [h3]
    · simp [h3] at h2
    · exact h3

theorem spent_lt (ht : t < p.threadSlots) (hb : p.state t = .blocked)
    (ha : p'.state t ≠ .blocked) (hs : p'.threadSlots = p.threadSlots)
    (h : ∀ t, p'.state t = p.state t ∨ p.state t = .blocked ∧ p'.state t = .ready
      ∨ p'.state t = .dead) : spent p + 1 ≤ spent p' := by
  obtain ⟨h1, h2⟩ := spent_parts h
  have h3 := card_lt_card ((ssubset_iff_of_subset h1).2 ⟨t,
    Finset.mem_filter.2 ⟨Finset.mem_range.2 ht, ha⟩, fun hm => (Finset.mem_filter.1 hm).2 hb⟩)
  have h4 := card_le_card h2
  unfold spent
  rw [hs]
  omega

theorem WaitsOn.still {q : QueueRef} (h : Still p p' t) :
    WaitsOn p'.waits t q ↔ WaitsOn p.waits t q := by
  simp only [WaitsOn, h.members, h.row]

theorem Ended.mono (h : Ended p p' already k t e) (hk : k ≤ k') : Ended p p' already k' t e :=
  { h with
    advanced := fun q hq hw => by
      obtain ⟨n, h1, h2, h3⟩ := h.advanced q hq hw
      exact ⟨n, h1, by omega, h3⟩ }

theorem Progress.mono (h : Progress p p' already k W) (hk : k ≤ k')
    (hW : ∀ t e, W t e → W' t e) : Progress p p' already k' W' :=
  { h with
    thread := fun t => by
      rcases h.thread t with h1 | h1 | ⟨e, h1, h2⟩
      · exact .inl h1
      · exact .inr (.inl h1)
      · exact .inr (.inr ⟨e, hW t e h1, h2.mono hk⟩)
    moved := fun q => by
      obtain ⟨n, h1, h2⟩ := h.moved q
      exact ⟨n, by omega, h2⟩ }

theorem Progress.refl (p : Pool) (already : Option QueueRef) (W : Slot → Ending → Prop) :
    Progress p p already 0 W where
  occupied := rfl
  threadSlots := rfl
  id := rfl
  processSlot := rfl
  nextCall := rfl
  call _ := .inl rfl
  state _ := .inl rfl
  thread t := .inr (.inl ⟨.refl p t, rfl⟩)
  moved _ := ⟨0, by omega, rfl⟩

theorem Ended.after_still (h : Progress p p₁ already k W) (hst : Still p p₁ t)
    (hs : p₁.state t = p.state t) (h' : Ended p₁ p₂ already k' t e) :
    Ended p p₂ already (k + k') t e where
  before := hs ▸ h'.before
  after := h'.after
  members := h'.members
  row := h'.row
  heap := h'.heap
  observer := h'.observer
  notices := by
    rw [h'.notices, hst.notices, notice, notice, hst.observer]
  data := by rw [h'.data, hst.data, hst.mode]
  advanced q hq hw := by
    obtain ⟨n, h1, h2, h3⟩ := h'.advanced q hq ((WaitsOn.still hst).2 hw)
    obtain ⟨m, h4, h5⟩ := h.moved q
    exact ⟨n + m, by omega, by omega, h5.trans h3⟩

theorem Ended.before_idle (h : Ended p p₁ already k t e) (h' : Progress p₁ p₂ already k' W)
    (hi : Idle p₁ p₂ t) : Ended p p₂ already (k + k') t e where
  before := h.before
  after := by
    rcases hi.after with h1 | h1
    · rw [h1]
      exact h.after
    · exact .inr h1
  members := hi.still.members.trans h.members
  row m := (hi.still.row m).trans (h.row m)
  heap hm := h.heap (hi.still.heap.1 hm)
  observer := hi.still.observer.trans h.observer
  notices := hi.still.notices.trans h.notices
  data := hi.still.data.trans h.data
  advanced q hq hw := by
    obtain ⟨n, h1, h2, h3⟩ := h.advanced q hq hw
    obtain ⟨m, h4, h5⟩ := h'.moved q
    exact ⟨m + n, by omega, by omega, h3.trans h5⟩

theorem Progress.trans (h : Progress p p₁ already k W) (h' : Progress p₁ p₂ already k' W) :
    Progress p p₂ already (k + k') W where
  occupied := h'.occupied.trans h.occupied
  threadSlots := h'.threadSlots.trans h.threadSlots
  id := h'.id.trans h.id
  processSlot := h'.processSlot.trans h.processSlot
  nextCall := h'.nextCall.trans h.nextCall
  call t := by
    rcases h'.call t with h1 | h1
    · rw [h1]
      exact h.call t
    · exact .inr h1
  state t := by
    have h1 := h.state t
    have h2 := h'.state t
    grind
  moved q := by
    obtain ⟨n, h1, h2⟩ := h.moved q
    obtain ⟨m, h3, h4⟩ := h'.moved q
    exact ⟨m + n, by omega, h2.trans h4⟩
  thread t := by
    rcases h.thread t with hi | ⟨hst, hs⟩ | ⟨e, he, hend⟩
    · left
      have hb₁ : p₁.state t ≠ .blocked := by
        rcases hi.after with h1 | h1 <;> rw [h1]
        · exact hi.before
        · simp
      rcases h'.thread t with hi' | ⟨hst', hs'⟩ | ⟨e, -, hend'⟩
      · refine ⟨hi.still.trans hi'.still, hi.before, ?_⟩
        rcases hi'.after with h1 | h1
        · rw [h1]
          exact hi.after
        · exact .inr h1
      · refine ⟨hi.still.trans hst', hi.before, ?_⟩
        rw [hs']
        exact hi.after
      · exact absurd hend'.before hb₁
    · rcases h'.thread t with hi' | ⟨hst', hs'⟩ | ⟨e, he', hend'⟩
      · exact .inl ⟨hst.trans hi'.still, hs ▸ hi'.before, hs ▸ hi'.after⟩
      · exact .inr (.inl ⟨hst.trans hst', hs'.trans hs⟩)
      · exact .inr (.inr ⟨e, he', Ended.after_still h hst hs hend'⟩)
    · right; right
      refine ⟨e, he, ?_⟩
      have hb₁ : p₁.state t ≠ .blocked := by
        rcases hend.after with h1 | h1 <;> simp [h1]
      rcases h'.thread t with hi' | ⟨hst', hs'⟩ | ⟨e', -, hend'⟩
      · exact hend.before_idle h' hi'
      · exact hend.before_idle h' ⟨hst', hb₁, .inl hs'⟩
      · exact absurd hend'.before hb₁

theorem noticesOf_append {l : List (Slot × ℕ × ℕ)} (h : p'.observed = p.observed ++ l)
    (hl : ∀ a ∈ l, a.1 ≠ t) : noticesOf p' t = noticesOf p t := by
  rw [noticesOf, h, filter_append]
  have : l.filter (·.1 = t) = [] := filter_eq_nil_iff.2 fun a ha => by simpa using hl a ha
  rw [this, append_nil]
  rfl

theorem mem_notice {a : Slot × ℕ × ℕ} {result : ℕ} (h : a ∈ notice p t result) : a.1 = t := by
  obtain ⟨o, -, rfl⟩ := mem_map.1 h
  rfl

theorem progress_of_withdrawn {prio : PriorityTable} {rq : ReadyQueues} {w : WaitTable}
    {dn : DonorTable} {d : DeadlineHeap} {call : Slot → ℕ} {data : Slot → ℕ → ℕ}
    {suspended : Slot → Bool} {e : Ending}
    (hw : Withdrawn p.waits w t already) (hu : Undeadlined p.deadlines d t)
    (ht : t < p.threadSlots) (hb : p.state t = .blocked)
    (hcall : call = p.call ∨ call = update p.call t 0) (hdata : ∀ x, x ≠ t → data x = p.data x)
    (hd : data t = e.data (p.data t) (p.waits.waitMode t)) :
    Progress p { p.settle prio rq w dn with
      deadlines := d
      state := update p.state t .ready
      suspended := suspended
      call := call
      data := data
      waitObserver := update p.waitObserver t none
      observed := p.observed ++ notice p t e.result } already 0 fun x e' => x = t ∧ e' = e := by
  have hstate : ∀ x, update p.state t .ready x = p.state x
      ∨ p.state x = .blocked ∧ update p.state t .ready x = .ready
      ∨ update p.state t .ready x = .dead := fun x => by
    rcases eq_or_ne x t with rfl | hx
    · exact .inr (.inl ⟨hb, update_self ..⟩)
    · exact .inl (update_of_ne hx _ _)
  have hspent : spent p + 1 ≤ spent { p.settle prio rq w dn with
      deadlines := d
      state := update p.state t .ready
      suspended := suspended
      call := call
      data := data
      waitObserver := update p.waitObserver t none
      observed := p.observed ++ notice p t e.result } :=
    spent_lt ht hb (by simp) rfl hstate
  refine ⟨rfl, rfl, rfl, rfl, rfl, fun x => ?_, hstate, fun x => ?_, fun q => ?_⟩
  · rcases hcall with rfl | rfl
    · exact .inl rfl
    · rcases eq_or_ne x t with rfl | hx
      · exact .inr (update_self ..)
      · exact .inl (update_of_ne hx _ _)
  · right
    rcases eq_or_ne x t with rfl | hxt
    · right
      refine ⟨e, ⟨rfl, rfl⟩, hb, .inl (update_self ..), ?_, fun m => ?_, fun hm => ?_,
        update_self .., ?_, hd, fun q hq hwq => ⟨1, one_pos, by omega, hw.advanced q hq hwq⟩⟩
      · exact (congrFun hw.members x).trans (update_self ..)
      · exact (hw.rows (x, m)).trans (if_pos rfl)
      · exact ((hu.mem x).1 hm).2 rfl
      · rw [noticesOf, filter_append, noticesOf]
        congr 1
        exact filter_eq_self.2 fun a ha => by simpa using mem_notice ha
    · left
      refine ⟨⟨?_, ?_, fun m => ?_, ?_, hu.cycles x hxt, hu.result x hxt, update_of_ne hxt _ _,
        noticesOf_append rfl fun a ha => ?_, hdata x hxt, ?_⟩, update_of_ne hxt _ _⟩
      · exact (congrFun hw.members x).trans (update_of_ne hxt _ _)
      · exact (congrFun hw.mode x).trans (update_of_ne hxt _ _)
      · exact (hw.rows (x, m)).trans (if_neg hxt)
      · exact (hu.mem x).trans (and_iff_left hxt)
      · rw [mem_notice ha]
        exact hxt.symm
      · rcases hcall with rfl | rfl
        · rfl
        · exact update_of_ne hxt _ _
  · by_cases hq : some q = already ∨ ¬ WaitsOn p.waits t q
    · exact ⟨0, by omega, hw.kept q hq⟩
    · rw [not_or, not_not] at hq
      exact ⟨1, by omega, hw.advanced q hq.1 hq.2⟩

theorem Completed.progress {member : Option ℕ} {result detail : ℕ} {one : Bool}
    (h : Completed p p' t already member result detail one) (ht : t < p.threadSlots)
    (hb : p.state t = .blocked) {e : Ending} (hr : e.result = result)
    (hd : e.data (p.data t) (p.waits.waitMode t)
      = endData (p.data t) (p.waits.waitMode t) member result detail one) :
    Progress p p' already 0 fun x e' => x = t ∧ e' = e := by
  obtain ⟨prio, rq, w, dn, d, rfl, hw, hu, -⟩ := h.eq
  subst hr
  refine progress_of_withdrawn hw hu ht hb ?_ (fun x hx => update_of_ne hx _ _)
    ((update_self ..).trans hd.symm)
  by_cases hc : CallWait p t
  · exact .inr (if_pos hc)
  · exact .inl (if_neg hc)

theorem Calm.progress (h : Calm p p') (hs : p'.state = p.state)
    (ht : p'.threadSlots = p.threadSlots) (hp : p'.processSlot = p.processSlot)
    (hq : ∀ q, (p'.waits.queue q).sequence = (p.waits.queue q).sequence)
    (already : Option QueueRef) (W : Slot → Ending → Prop) : Progress p p' already 0 W where
  occupied := h.occupied
  threadSlots := ht
  id := h.id
  processSlot := hp
  nextCall := h.nextCall
  call t := .inl (h.still t).call
  state t := .inl (congrFun hs t)
  thread t := .inr (.inl ⟨h.still t, congrFun hs t⟩)
  moved q := ⟨0, by
    have : spent p' = spent p := by unfold spent; rw [hs, ht]
    omega, hq q⟩

theorem spent_lt_of_dead (ht : t < p.threadSlots) (hd : p.state t ≠ .dead)
    (ha : p'.state t = .dead) (hs : p'.threadSlots = p.threadSlots)
    (h : ∀ t, p'.state t = p.state t ∨ p.state t = .blocked ∧ p'.state t = .ready
      ∨ p'.state t = .dead) : spent p + 1 ≤ spent p' := by
  obtain ⟨h1, h2⟩ := spent_parts h
  have h3 := card_lt_card ((ssubset_iff_of_subset h2).2 ⟨t,
    Finset.mem_filter.2 ⟨Finset.mem_range.2 ht, ha⟩, fun hm => hd (Finset.mem_filter.1 hm).2⟩)
  have h4 := card_le_card h1
  unfold spent
  rw [hs]
  omega

end

end Astra
