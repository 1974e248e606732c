import AstraKernel.Proofs.Wake

/-!
# Blocking

A thread that blocks is linked into the queue of each member of its set and put in the heap if it
has a deadline. When a member or the deadline is refused, everything is taken back.
-/

namespace Astra

open Function List

/-- A wait has started, on the queues of `specs`. -/
structure Started (p p' : Pool) (t : Slot) (specs : List KernelThreadWaitSpec)
    (deadline timeoutResult : ℕ) (mode : KernelThreadWaitMode) : Prop where
  eq : ∃ w d, p' = { p with state := update p.state t .blocked, waits := w, deadlines := d }
  valid : validThread p t
  before : p.state t = .running
  members : p'.waits.waitMemberCount t = specs.length
  mode : p'.waits.waitMode t = mode
  row : ∀ m, (p'.waits.row (t, m)).queue = specs[m]?.bind (·.queue)
  heap : t ∈ p'.deadlines.heap ↔ deadline ≠ kernelThreadDeadlineNever
  timeout : deadline ≠ kernelThreadDeadlineNever →
    p'.deadlines.deadlineCycles t = deadline ∧ p'.deadlines.deadlineResult t = timeoutResult
  observer : p'.waitObserver t = none
  others : ∀ x, x ≠ t → Still p p' x

section

variable {p p' p₁ p₂ : Pool} {R : ℕ → List Slot} {Q : QueueRef → List Registration}
  {S : Finset Registration} {D : Slot → List Slot} {loose : Option Slot} {t : Slot}

theorem WaitShape.row_clear {w : WaitTable} (h : WaitShape w Q S) {r : Registration} (hr : r ∉ S) :
    w.row r = ⟨none, none, none⟩ := by
  have hq := h.queue_none hr
  obtain ⟨hn, hp⟩ := h.lists.off r fun q hq => hr (h.mem hq)
  rcases hw : w.row r with ⟨a, b, c⟩
  simp_all

theorem ensureWaitRegistrations_spec (h : Queued p R Q S none) (hm : p.waits.waitMemberCount t = 0)
    (memory : Bool) :
    (ensureWaitRegistrations p t memory = (.outOfMemory, p)) ∨
      ensureWaitRegistrations p t memory = (.ok, { p with
        waits := { p.waits with rowAllocated := update p.waits.rowAllocated t true } }) := by
  have hS : ∀ m, (t, m) ∉ S := fun m hr => by
    have := ((h.linked t m).1 hr).2
    omega
  have hrow : resetWaitRow { p.waits with rowAllocated := update p.waits.rowAllocated t true } t
      = { p.waits with rowAllocated := update p.waits.rowAllocated t true } := by
    have h1 : (fun r : Registration => if r.1 = t then ⟨none, none, none⟩ else p.waits.row r)
        = p.waits.row := by
      funext ⟨s, m⟩
      split_ifs with hs
      · obtain rfl : s = t := hs
        rw [h.waits.row_clear (hS m)]
      · rfl
    have h2 : p.waits.waitRegistrationCount t = 0 := by
      rw [h.waits.each, Finset.card_eq_zero, Finset.filter_eq_empty_iff]
      rintro ⟨s, m⟩ hr rfl
      exact hS m hr
    unfold resetWaitRow
    simp only [h1]
    rw [← h2, update_eq_self]
  unfold ensureWaitRegistrations
  by_cases ha : p.waits.rowAllocated t = true
  · right
    rw [if_pos ha, ← ha, update_eq_self]
  · rw [if_neg ha]
    split_ifs
    · right
      simp only [hrow]
    · exact .inl rfl

theorem Sound.allocateRow (h : Sound p R Q S D loose) (t : Slot) :
    Sound { p with waits := { p.waits with
      rowAllocated := update p.waits.rowAllocated t true } } R Q S D loose := by
  refine ⟨{ h.queued with waits := { h.queued.waits with }, row := fun x hx hm => ?_ },
    { h.donated with }, { h.steady with }⟩
  by_cases hxt : x = t
  · simp [hxt]
  · simpa [hxt] using h.queued.row x hx hm

theorem blockLink_eq (queues : ℕ → Option QueueRef) (t : Slot) :
    ∀ (specs : List KernelThreadWaitSpec) (p p' : Pool) (member : ℕ),
      (∀ m, specs[m]?.bind (·.queue) = if m < specs.length then queues (member + m) else none) →
      forEach (changeEnqueue t queues) p (List.range' member specs.length) = (.ok, p') →
      blockLink t p member specs = ((.ok, p'), member + specs.length)
  | [], p, p', member, _, he => by
    obtain rfl : p = p' := by simpa [forEach] using he
    rfl
  | spec :: specs, p, p', member, hq, he => by
    have h0 : spec.queue = queues member := by simpa using hq 0
    rw [length_cons, range'_succ, forEach] at he
    obtain ⟨p₁, h1, h2⟩ := Result.andThen_eq_ok he
    unfold changeEnqueue at h1
    unfold blockLink
    rw [← h0] at h1
    rcases hs : spec.queue with _ | q
    · simp [hs] at h1
    · simp only [hs] at h1 ⊢
      obtain ⟨p₂, h3, h4⟩ := Result.orCorrupt_eq_ok h1
      obtain rfl : p₂ = p₁ := congrArg Prod.snd h4
      have ih := blockLink_eq queues t specs p₂ p' (member + 1) (fun m => by
        have := hq (m + 1)
        simpa [Nat.add_assoc, Nat.add_comm 1 m] using this) h2
      simp only [h3, ih, length_cons, Nat.add_assoc, Nat.add_comm 1]

theorem blockCheck_ok : ∀ (specs prior : List KernelThreadWaitSpec), blockCheck p prior specs = .ok →
    ∀ spec ∈ specs, ∃ q, spec.queue = some q
  | [], _, _, spec, hs => by simp at hs
  | s :: specs, prior, h, spec, hs => by
    unfold blockCheck at h
    rcases hq : s.queue with _ | q
    · simp [hq] at h
    · rw [hq] at h
      simp only at h
      split_ifs at h
      rcases mem_cons.1 hs with rfl | hs
      · exact ⟨q, hq⟩
      · exact blockCheck_ok specs _ h spec hs

def Pool.toBlock (p : Pool) (t : Slot) (n : ℕ) (mode : KernelThreadWaitMode) : Pool :=
  { p with
    state := update p.state t .blocked
    waits := { p.waits with
      waitMemberCount := update p.waits.waitMemberCount t n
      waitMode := update p.waits.waitMode t mode } }

def Waitable (p : Pool) (t : Slot) (specs : List KernelThreadWaitSpec)
    (mode : KernelThreadWaitMode) : Prop :=
  ∀ spec ∈ specs, match spec.queue with
    | some (.call s) => s = t ∧ specs.length = 1 ∧ mode = .one
    | some (.death s) => validThread p s
    | _ => True

section

variable (h : Sound p R Q S D none)
include h

theorem blockLink_spec (hv : validThread p t)
    (hs : p.state t = .running) (hrow : p.waits.rowAllocated t = true)
    {specs : List KernelThreadWaitSpec} {mode : KernelThreadWaitMode} (hn : specs.length ≠ 0)
    (hmax : specs.length ≤ kernelThreadWaitMemberMax)
    (hq : ∀ spec ∈ specs, ∃ q, spec.queue = some q) (hwait : Waitable p t specs mode) :
    ∃ w Q', blockLink t (p.toBlock t specs.length mode) 0 specs
        = ((.ok, { p.toBlock t specs.length mode with waits := w }), specs.length) ∧
      (p.toBlock t specs.length mode).waits.Frame w ∧
      Sound { p.toBlock t specs.length mode with waits := w } R Q'
        (S ∪ (Finset.range specs.length).image (Prod.mk t)) D none ∧
      (∀ m, (w.row (t, m)).queue = specs[m]?.bind (·.queue)) ∧
      ∀ x m, x ≠ t → (w.row (x, m)).queue = (p.waits.row (x, m)).queue := by
  have hm0 : p.waits.waitMemberCount t = 0 := by
    by_contra hne
    have := ((h.queued.waiting t hv).1 hne).1
    rw [hs] at this
    exact absurd this (by simp)
  have hout : ∀ m, (t, m) ∉ S := fun m hr => by
    have := ((h.queued.linked t m).1 hr).2
    omega
  have hsome : ∀ m < specs.length, ∃ q, specs[m]?.bind (·.queue) = some q := fun m hm => by
    obtain ⟨q, hq⟩ := hq specs[m] (getElem_mem hm)
    exact ⟨q, by simp [hm, hq]⟩
  have hmemS : ∀ r, r ∈ S ∪ (Finset.range specs.length).image (Prod.mk t)
      ↔ r ∈ S ∨ r.1 = t ∧ r.2 ∈ List.range' 0 specs.length := by
    rintro ⟨x, m⟩
    simp only [Finset.mem_union, Finset.mem_image, Finset.mem_range, Prod.mk.injEq,
      mem_range'_1, Nat.zero_le, true_and, Nat.zero_add]
    constructor
    · rintro (h1 | ⟨a, h1, rfl, rfl⟩)
      · exact .inl h1
      · exact .inr ⟨rfl, h1⟩
    · rintro (h1 | ⟨rfl, h1⟩)
      · exact .inl h1
      · exact .inr ⟨m, h1, rfl, rfl⟩
  obtain ⟨p₂, hp₂⟩ : ∃ p₂, p₂ = p.toBlock t specs.length mode := ⟨_, rfl⟩
  have hw₂ : WaitShape p₂.waits Q S := by
    rw [hp₂]
    exact { h.queued.waits with }
  have hl₂ : WaitLive p₂ (S ∪ (Finset.range specs.length).image (Prod.mk t)) := by
    rintro ⟨x, m⟩ hr
    rw [hp₂]
    rcases (hmemS _).1 hr with hr | ⟨hx, hm⟩
    · exact h.queued.live _ hr
    · obtain rfl : x = t := hx
      exact ⟨hv, hrow, (by simpa using hm : m < specs.length).trans_le hmax⟩
  obtain ⟨w, Q', h1, h2, h3, h4, h5⟩ := forEach_enqueue_spec (p := p₂) (t := t)
    (S := S ∪ (Finset.range specs.length).image (Prod.mk t))
    (changeEnqueue t fun m => specs[m]?.bind (·.queue)) (fun m => specs[m]?.bind (·.queue))
    (by rw [hp₂]; exact h.queued.slot) (by rw [hp₂]; exact h.queued.slots) hw₂ hl₂
    (by rw [hp₂]; exact hv) (by rw [hp₂]; exact update_self ..) (by rw [hp₂]; exact hrow)
    (by rw [hp₂]; exact h.queued.served)
    (fun p' m q w hm he => by simp [changeEnqueue, hm, he])
    (show (List.range' 0 specs.length).Nodup from nodup_range')
    (fun m hm => hsome m (by simpa using hm))
    (fun m hm => by
      have hm : m < specs.length := by simpa using hm
      rw [hp₂]
      exact ⟨by simpa [Pool.toBlock] using hm, hm.trans_le hmax⟩)
    hmemS (fun m _ => hout m)
  have hnil : ∀ q m, (t, m) ∉ Q q := fun q m hr => hout m (h.queued.waits.mem hr)
  have hrowt : ∀ m, (w.row (t, m)).queue = specs[m]?.bind (·.queue) := fun m => by
    refine Option.ext fun q => ?_
    rw [h3.queued, h5]
    simp only [hnil, false_or, true_and, mem_range'_1, Nat.zero_le, Nat.zero_add]
    refine ⟨And.right, fun he => ⟨?_, he⟩⟩
    by_contra hlt
    simp [List.getElem?_eq_none (Nat.le_of_not_lt hlt)] at he
  have hrowx : ∀ x m, x ≠ t → (w.row (x, m)).queue = (p.waits.row (x, m)).queue := fun x m hx => by
    refine Option.ext fun q => ?_
    rw [h3.queued, h5, h.queued.waits.queued]
    simp [hx]
  have howner : p.donors.waitOwnerSlot t = none := h.donated.owner_none (by rw [hs]; simp)
  refine ⟨w, Q', ?_, hp₂ ▸ h2, ?_, hrowt, hrowx⟩
  · rw [← hp₂, blockLink_eq (fun m => specs[m]?.bind (·.queue)) t specs p₂ _ 0 (fun m => ?_) h1,
      Nat.zero_add]
    rw [Nat.zero_add]
    split_ifs with hlt
    · rfl
    · simp [List.getElem?_eq_none (Nat.le_of_not_lt hlt)]
  · have hmembers : w.waitMemberCount = update p.waits.waitMemberCount t specs.length := by
      rw [h2.members, hp₂]
      rfl
    have hmode : w.waitMode = update p.waits.waitMode t mode := by
      rw [h2.mode, hp₂]
      rfl
    have halloc : w.rowAllocated = p.waits.rowAllocated := by
      rw [h2.rowAllocated, hp₂]
      rfl
    refine ⟨?_, ?_, ?_⟩
    · refine { h.queued with
        readyMem := fun x k => ?_, waits := h3, linked := fun x m => ?_, waiting := fun x hx => ?_,
        memberMax := fun x hx => ?_, row := fun x hx hne => ?_, served := ?_, known := fun x hx => ?_,
        callQueue := fun s r hr => ?_, deathQueue := fun s r hr => ?_ }
      · rw [h.queued.readyMem]
        by_cases hxt : x = t
        · subst hxt
          simp [Pool.toBlock, hs]
        · simp only [Pool.toBlock, update_of_ne hxt]
          exact Iff.rfl
      · rw [hmemS, h.queued.linked, hmembers]
        by_cases hxt : x = t
        · subst hxt
          have hvt : validThread { p.toBlock x specs.length mode with waits := w } x := hv
          simp [hm0, hvt]
        · simp only [update_of_ne hxt, hxt, false_and, or_false]
          exact Iff.rfl
      · rw [hmembers]
        by_cases hxt : x = t
        · subst hxt
          simp [Pool.toBlock, hn]
        · simp only [Pool.toBlock, update_of_ne hxt]
          exact h.queued.waiting x hx
      · rw [hmembers]
        by_cases hxt : x = t
        · subst hxt
          simpa using hmax
        · simpa only [update_of_ne hxt] using h.queued.memberMax x hx
      · rw [halloc]
        rw [hmembers] at hne
        by_cases hxt : x = t
        · exact hxt ▸ hrow
        · rw [update_of_ne hxt] at hne
          exact h.queued.row x hx hne
      · rw [hp₂] at h4
        exact h4
      · by_cases hxt : x = t
        · subst hxt
          simp [Pool.toBlock]
        · simp only [Pool.toBlock, update_of_ne hxt]
          exact h.queued.known x hx
      · rw [hmode]
        rcases (h5 _ r).1 hr with hr | ⟨h6, h7, h8⟩
        · obtain ⟨h6, h7⟩ := h.queued.callQueue s r hr
          refine ⟨h6, ?_⟩
          rw [update_of_ne]
          · exact h7
          · rintro rfl
            exact hnil _ _ (h6 ▸ hr)
        · have hlt : r.2 < specs.length := by simpa using h7
          have hw := hwait specs[r.2] (getElem_mem hlt)
          rw [List.getElem?_eq_getElem hlt, Option.bind_some] at h8
          rw [h8] at hw
          obtain ⟨rfl, h9, h10⟩ := hw
          refine ⟨Prod.ext h6 ?_, by rw [update_self, h10]⟩
          show r.2 = 0
          omega
      · rcases (h5 _ r).1 hr with hr | ⟨h6, h7, h8⟩
        · exact h.queued.deathQueue s r hr
        · have hlt : r.2 < specs.length := by simpa using h7
          have hw := hwait specs[r.2] (getElem_mem hlt)
          rw [List.getElem?_eq_getElem hlt, Option.bind_some] at h8
          rw [h8] at hw
          exact hw
    · have hD := h.donated.restate (s := .blocked) (t := t) (.inr rfl) (.inr (by simp))
      refine { hD with kind := fun r x hx hl => ?_ }
      have hne : x ≠ t := by
        rintro rfl
        rw [(h.donated.owner x r).2 hx] at howner
        exact absurd howner (by simp)
      have := h.donated.kind r x hx hl
      simpa only [WaitsFor, Pool.toBlock, hmembers, update_of_ne hne, hrowx x 0 hne] using this
    · refine ⟨h.steady.heap, fun x hx => ?_, fun x hx hb => ?_, fun x hx hb => ?_, fun q => ?_,
        h.steady.nextSlot⟩
      · obtain ⟨h6, h7⟩ := h.steady.timed x hx
        refine ⟨h6, ?_⟩
        by_cases hxt : x = t
        · subst hxt
          exact update_self ..
        · exact (update_of_ne hxt _ _).trans h7
      · by_cases hxt : x = t
        · subst hxt
          exact absurd (update_self ..) hb
        · exact h.steady.observer x hx fun h6 => hb ((update_of_ne hxt _ _).trans h6)
      · by_cases hxt : x = t
        · subst hxt
          exact absurd (update_self ..) hb
        · rw [hmode, update_of_ne hxt]
          exact h.steady.mode x hx fun h6 => hb ((update_of_ne hxt _ _).trans h6)
      · have h6 := h2.sequence q
        rw [hp₂] at h6
        show 0 < (w.queue q).sequence ∧ (w.queue q).sequence < 2 ^ 32
        rw [h6]
        exact h.steady.sequence q

theorem blockRollback_spec (hv : validThread p t)
    (hs : p.state t = .running) {n : ℕ} {mode : KernelThreadWaitMode} {w : WaitTable}
    {Q' : QueueRef → List Registration} {S' : Finset Registration}
    (hw : (p.toBlock t n mode).waits.Frame w)
    (h' : Sound { p.toBlock t n mode with waits := w } R Q' S' D none)
    (hrow : ∀ x m, x ≠ t → (w.row (x, m)).queue = (p.waits.row (x, m)).queue)
    (status : KernelThreadStatus) :
    ∃ w', blockRollback { p.toBlock t n mode with waits := w } t n status
        = (status, { p with waits := w' }) ∧
      Healthy { p with waits := w' } ∧ Calm p { p with waits := w' } := by
  have hm0 : p.waits.waitMemberCount t = 0 := by
    by_contra hne
    have := ((h.queued.waiting t hv).1 hne).1
    rw [hs] at this
    exact absurd this (by simp)
  have hmembers : w.waitMemberCount = update p.waits.waitMemberCount t n := hw.members
  have hmem : ∀ m, (t, m) ∈ S' ↔ m ∈ List.range n := fun m => by
    rw [h'.queued.linked, mem_range]
    show validThread p t ∧ m < w.waitMemberCount t ↔ m < n
    rw [hmembers, update_self]
    exact and_iff_right hv
  obtain ⟨w₁, h1, h2, h3⟩ := forEach_remove_spec
    (fun p member => removeWaitRegistration p (t, member)) h'.queued.waits h'.queued.live
    (fun p' m w _ he => he) nodup_range hmem
  obtain ⟨w₂, hw₂⟩ : ∃ w₂ : WaitTable, w₂ = { w₁ with
      waitMemberCount := update w₁.waitMemberCount t 0
      waitMode := update w₁.waitMode t .none } := ⟨_, rfl⟩
  have hstate : update (update p.state t .blocked) t .running = p.state := by
    rw [update_idem, ← hs, update_eq_self]
  have hmode0 : p.waits.waitMode t = .none := h.steady.mode t hv (by rw [hs]; simp)
  have hmembers₂ : w₂.waitMemberCount = p.waits.waitMemberCount := by
    rw [hw₂]
    show update w₁.waitMemberCount t 0 = _
    rw [h2.members]
    show update w.waitMemberCount t 0 = _
    rw [hmembers, update_idem, ← hm0, update_eq_self]
  have hmode₂ : w₂.waitMode = p.waits.waitMode := by
    rw [hw₂]
    show update w₁.waitMode t .none = _
    rw [h2.mode]
    show update w.waitMode t .none = _
    rw [hw.mode]
    show update (update p.waits.waitMode t mode) t .none = _
    rw [update_idem, ← hmode0, update_eq_self]
  have halloc₂ : w₂.rowAllocated = p.waits.rowAllocated := by
    rw [hw₂]
    exact h2.rowAllocated.trans hw.rowAllocated
  have hshape : WaitShape w₂ (fun q => (Q' q).filter fun r => r.1 ≠ t)
      (S'.filter fun r => r.1 ≠ t) := by
    rw [hw₂]
    exact { h3 with }
  have hrow₂ : ∀ r, (w₂.row r).queue = (p.waits.row r).queue := fun ⟨x, m⟩ => by
    refine Option.ext fun q => ?_
    rw [hshape.queued, mem_filter, ← h'.queued.waits.queued]
    show (w.row (x, m)).queue = some q ∧ decide (x ≠ t) = true ↔ _
    by_cases hxt : x = t
    · subst hxt
      have hout : (x, m) ∉ S := fun hr => by
        have := ((h.queued.linked x m).1 hr).2
        omega
      simp [h.queued.waits.queue_none hout]
    · simp [hrow x m hxt, hxt]
  refine ⟨w₂, ?_, ⟨R, fun q => (Q' q).filter fun r => r.1 ≠ t, S'.filter fun r => r.1 ≠ t, D, ?_, ?_,
    ?_⟩, ⟨rfl, rfl, rfl, fun x => ?_, fun _ => Iff.rfl⟩⟩
  · unfold blockRollback
    rw [h1, Result.orCorrupt_ok, hw₂]
    simp only [Pool.toBlock, hstate]
  · refine { h.queued with
      waits := hshape, linked := fun x m => ?_, waiting := fun x hx => ?_,
      memberMax := fun x hx => ?_, row := fun x hx => ?_,
      served := fun q => ?_, callQueue := fun s r hr => ?_, deathQueue := fun s r hr => ?_ }
    · rw [Finset.mem_filter, h'.queued.linked]
      show (validThread p x ∧ m < w.waitMemberCount x) ∧ x ≠ t
        ↔ validThread p x ∧ m < w₂.waitMemberCount x
      rw [hmembers₂, hmembers]
      by_cases hxt : x = t
      · subst hxt
        simp [hm0]
      · simp [hxt]
    · rw [hmembers₂]
      exact h.queued.waiting x hx
    · rw [hmembers₂]
      exact h.queued.memberMax x hx
    · rw [hmembers₂, halloc₂]
      exact h.queued.row x hx
    · exact (h'.queued.served q).filter _
    · obtain ⟨hr, hne⟩ := mem_filter.1 hr
      obtain ⟨rfl, h4⟩ := h'.queued.callQueue s r hr
      refine ⟨rfl, ?_⟩
      have hst : s ≠ t := by simpa using hne
      rw [hmode₂]
      have h5 : w.waitMode s = .one := h4
      rw [hw.mode] at h5
      exact (update_of_ne hst _ _).symm.trans h5
    · exact h'.queued.deathQueue s r (mem_filter.1 hr).1
  · refine { h.donated with kind := fun r x hx hl => ?_ }
    have := h.donated.kind r x hx hl
    simpa only [WaitsFor, hmembers₂, hrow₂] using this
  · refine { h.steady with mode := fun x hx hb => ?_, sequence := fun q => ?_ }
    · rw [hmode₂]
      exact h.steady.mode x hx hb
    · have h4 : (w₂.queue q).sequence = (p.waits.queue q).sequence := by
        rw [hw₂]
        exact (h2.sequence q).trans (hw.sequence q)
      rw [h4]
      exact h.steady.sequence q
  · exact ⟨congrFun hmembers₂ x, congrFun hmode₂ x, fun m => hrow₂ (x, m), Iff.rfl, rfl, rfl, rfl,
      rfl, rfl, rfl⟩

theorem blockWaitSet_spec (specs : List KernelThreadWaitSpec)
    (now deadline timeoutResult : ℕ) (mode : KernelThreadWaitMode) (rowMemory heapMemory : Bool)
    (hwait : Waitable p t specs mode) :
    (∃ p', blockWaitSet p t specs now deadline timeoutResult mode rowMemory heapMemory = (.ok, p') ∧
      Healthy p' ∧ Started p p' t specs deadline timeoutResult mode) ∨
    ∃ status w, status ≠ .ok ∧
      blockWaitSet p t specs now deadline timeoutResult mode rowMemory heapMemory
        = (status, { p with waits := w }) ∧
      Healthy { p with waits := w } ∧ Calm p { p with waits := w } := by
  have hsame : ∀ status, status ≠ .ok → ∃ status' w, status' ≠ .ok ∧
      ((status, p) : Result) = (status', { p with waits := w }) ∧
      Healthy { p with waits := w } ∧ Calm p { p with waits := w } :=
    fun status hne => ⟨status, p.waits, hne, rfl, ⟨R, Q, S, D, h⟩, .refl p⟩
  unfold blockWaitSet
  split
  · exact .inr (hsame _ (by simp))
  rename_i hgate
  split
  · exact .inr (hsame _ (by simp))
  split
  · rename_i hcheck
    exact .inr (hsame _ hcheck)
  rename_i hcheck
  simp only [not_or, not_not, not_lt] at hgate hcheck
  obtain ⟨hv, hn, hmax, hs, hm0, -, -⟩ := hgate
  rcases ensureWaitRegistrations_spec h.queued hm0 rowMemory with he | he
  · right
    rw [he]
    exact hsame _ (by simp)
  rw [he, Result.andThen_ok]
  have h₁ := h.allocateRow t
  obtain ⟨p₁, hp₁⟩ : ∃ p₁, p₁ = { p with waits := { p.waits with
      rowAllocated := update p.waits.rowAllocated t true } } := ⟨_, rfl⟩
  rw [← hp₁] at h₁ ⊢
  have hv₁ : validThread p₁ t := by rw [hp₁]; exact hv
  have hs₁ : p₁.state t = .running := by rw [hp₁]; exact hs
  have hwait₁ : Waitable p₁ t specs mode := by rw [hp₁]; exact hwait
  have hcalm₁ : Calm p p₁ := by
    rw [hp₁]
    exact ⟨rfl, rfl, rfl, fun x => ⟨rfl, rfl, fun _ => rfl, Iff.rfl, rfl, rfl, rfl, rfl, rfl, rfl⟩,
      fun _ => Iff.rfl⟩
  obtain ⟨w, Q', h1, h2, h3, h4, h5⟩ := blockLink_spec h₁ hv₁ hs₁ (by rw [hp₁]; exact update_self ..)
    hn hmax (blockCheck_ok specs [] hcheck) hwait₁
  have hback : ∀ status, status ≠ .ok → ∃ status' w', status' ≠ .ok ∧
      blockRollback { p₁.toBlock t specs.length mode with waits := w } t specs.length status
        = (status', { p with waits := w' }) ∧
      Healthy { p with waits := w' } ∧ Calm p { p with waits := w' } := fun status hne => by
    obtain ⟨w', h6, h7, h8⟩ := blockRollback_spec h₁ hv₁ hs₁ h2 h3 h5 status
    have h9 : { p₁ with waits := w' } = { p with waits := w' } := by rw [hp₁]
    rw [h9] at h6 h7 h8
    exact ⟨status, w', hne, h6, h7, hcalm₁.trans h8⟩
  simp only [Pool.toBlock] at h1 h3 hback
  simp only [h1, Result.andThen_ok]
  have hstart : ∀ d, HeapShape d → (∀ x, x ∈ d.heap ↔ x ∈ p.deadlines.heap ∨ x = t
        ∧ deadline ≠ kernelThreadDeadlineNever) →
      (∀ x, x ≠ t → d.deadlineCycles x = p.deadlines.deadlineCycles x
        ∧ d.deadlineResult x = p.deadlines.deadlineResult x) →
      (deadline ≠ kernelThreadDeadlineNever →
        d.deadlineCycles t = deadline ∧ d.deadlineResult t = timeoutResult) →
      Healthy { p₁ with state := update p₁.state t .blocked, waits := w, deadlines := d } ∧
      Started p { p₁ with state := update p₁.state t .blocked, waits := w, deadlines := d } t specs
        deadline timeoutResult mode := by
    intro d hd hmem hne hself
    have htimed : ∀ x ∈ p.deadlines.heap, validThread p x ∧ p.state x = .blocked := h.steady.timed
    have hnot : t ∉ p.deadlines.heap := fun hx => by
      have := (htimed t hx).2
      rw [hs] at this
      exact absurd this (by simp)
    refine ⟨⟨R, Q', _, D, { h3.queued with }, { h3.donated with }, { h3.steady with
        heap := hd, timed := fun x hx => ?_ }⟩,
      ⟨w, d, by rw [hp₁]⟩, hv, hs, ?_, ?_, h4, ?_, hself, ?_, fun x hx => ?_⟩
    · rcases (hmem x).1 hx with hx | ⟨rfl, -⟩
      · exact h3.steady.timed x (by rw [hp₁]; exact hx)
      · exact ⟨hv₁, update_self ..⟩
    · exact (congrFun h2.members t).trans (update_self ..)
    · exact (congrFun h2.mode t).trans (update_self ..)
    · rw [hmem]
      simp [hnot]
    · rw [hp₁]
      exact h.steady.observer t hv (by rw [hs]; simp)
    · obtain ⟨h6, h7⟩ := hne x hx
      refine ⟨?_, ?_, fun m => (h5 x m hx).trans (by rw [hp₁]), ?_, h6, h7, by rw [hp₁], ?_,
        by rw [hp₁], by rw [hp₁]⟩
      · refine (congrFun h2.members x).trans ((update_of_ne hx _ _).trans ?_)
        rw [hp₁]
      · refine (congrFun h2.mode x).trans ((update_of_ne hx _ _).trans ?_)
        rw [hp₁]
      · rw [hmem]
        simp [hx]
      · rw [hp₁]
        rfl
  have hnot : t ∉ p₁.deadlines.heap := fun hx => by
    rw [hp₁] at hx
    have := (h.steady.timed t hx).2
    rw [hs] at this
    exact absurd this (by simp)
  by_cases hnever : deadline = kernelThreadDeadlineNever
  · left
    rw [if_pos hnever]
    refine ⟨_, rfl, hstart p₁.deadlines h₁.steady.heap (fun x => ?_) (fun x _ => ?_) fun hne => ?_⟩
    · rw [hp₁]
      simp [hnever]
    · rw [hp₁]
      exact ⟨rfl, rfl⟩
    · exact absurd hnever hne
  rw [if_neg hnever]
  obtain ⟨p₂, hp₂⟩ : ∃ p₂, p₂ = { p₁ with state := update p₁.state t .blocked, waits := w } :=
    ⟨_, rfl⟩
  have hv₂ : validThread p₂ t := by rw [hp₂]; exact hv₁
  have hb₂ : p₂.state t = .blocked := by rw [hp₂]; exact update_self ..
  have hd₂ : p₂.deadlines = p₁.deadlines := by rw [hp₂]
  cases heapMemory with
  | false =>
    right
    have hins : deadlineInsert p₂ t deadline timeoutResult false = (.noSlot, p₂) := by
      have hpos : p₂.deadlines.deadlinePosition t = none := by
        by_contra hne
        exact hnot (hd₂ ▸ ((hd₂ ▸ h₁.steady.heap : HeapShape p₂.deadlines).mem_iff t).2 hne)
      unfold deadlineInsert
      rw [if_neg (by simp [hv₂, hb₂, hnever, hpos]), if_pos rfl]
    rw [← hp₂, hins]
    simp only [hp₂]
    exact hback .noSlot (by simp)
  | true =>
    left
    obtain ⟨d, h6, h7, h8, h9, h10⟩ := deadlineInsert_spec (p := p₂) (t := t)
      (hd₂ ▸ h₁.steady.heap) hv₂ hb₂ (hd₂ ▸ hnot) hnever timeoutResult
    rw [← hp₂, h6]
    have hmem : ∀ x, x ∈ d.heap ↔ x ∈ p.deadlines.heap ∨ x = t
        ∧ deadline ≠ kernelThreadDeadlineNever := fun x => by
      rw [h8.mem_iff, hd₂, hp₁]
      simp [hnever]
    have hother : ∀ x, x ≠ t → d.deadlineCycles x = p.deadlines.deadlineCycles x
        ∧ d.deadlineResult x = p.deadlines.deadlineResult x := fun x hx => by
      rw [h9, h10, hd₂, hp₁]
      exact ⟨update_of_ne hx _ _, update_of_ne hx _ _⟩
    have hself : d.deadlineCycles t = deadline ∧ d.deadlineResult t = timeoutResult := by
      rw [h9, h10]
      exact ⟨update_self .., update_self ..⟩
    refine ⟨_, rfl, ?_⟩
    rw [hp₂]
    exact hstart d h7 hmem hother fun _ => hself

end

end

end Astra
