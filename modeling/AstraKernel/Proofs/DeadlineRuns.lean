import AstraKernel.Proofs.DeadlineOrder
import AstraKernel.Proofs.Wake

/-!
# Runs of the deadline heap

Inserts, removals from any position and expirations, with whatever else the kernel does to the pool
between them. As long as each removal fits (`RemovalFits`), every sift returns, and the heap stays
in order with exact positions. So its root is the next deadline, and an expiry completes the waits
whose deadline has come, in order.
-/

namespace Astra

open Function List

/-- The heap with its last entry put in the place of the thread's. -/
def DeadlineHeap.takeOut (d : DeadlineHeap) (t : Slot) (position : ℕ) (last : Slot) :
    DeadlineHeap where
  heap := d.heap.dropLast.set position last
  deadlinePosition := update (update d.deadlinePosition t none) last (some position)
  deadlineCycles := update d.deadlineCycles t 0
  deadlineResult := update d.deadlineResult t 0

/-- Removing the thread puts the last entry of the heap at `position`, and there it has to sink. -/
structure SinksAfter (d : DeadlineHeap) (t : Slot) (position : ℕ) (last : Slot) : Prop where
  isAt : d.deadlinePosition t = some position
  isLast : d.heap.getLast? = some last
  inside : position + 1 < d.heap.length
  stays : ¬(position ≠ 0 ∧ precedesAt (d.takeOut t position last) position ((position - 1) / 2))

/-- A removal after which the entry that has to sink, if one does, does so within range. -/
def RemovalFits (d : DeadlineHeap) (t : Slot) : Prop :=
  ∀ position last, SinksAfter d t position last → SiftFits (d.takeOut t position last) position

/-- `deadline_sift_down` returns, with this heap. -/
def SiftReturns (d : DeadlineHeap) (t : Slot) (d' : DeadlineHeap) : Prop :=
  ∀ position last, SinksAfter d t position last →
    SiftDownEnds (d.takeOut t position last) position d'

structure HeapSound (d : DeadlineHeap) : Prop where
  shape : HeapShape d
  order : HeapOrder d
  small : d.heap.length ≤ 65535
  finite : ∀ t ∈ d.heap, d.deadlineCycles t ≠ kernelThreadDeadlineNever

variable {d d' : DeadlineHeap} {last x : Slot} {a b i j n position : ℕ}

theorem HeapOrder.head_le {t : Slot} (h : HeapOrder d)
    (ht : d.heap.head? = some t) (hx : x ∈ d.heap) :
    d.deadlineCycles t ≤ d.deadlineCycles x := by
  obtain ⟨i, hi, rfl⟩ := getElem_of_mem hx
  have hroot : d.heap[0]? = some t := by rw [← List.head?_eq_getElem?, ht]
  have hle := h.root_le i hi
  rw [ranks_of_getElem? hroot, ranks_of_getElem? (List.getElem?_eq_getElem hi)] at hle
  unfold DeadlineHeap.rank at hle
  rw [Prod.Lex.toLex_le_toLex] at hle
  rcases hle with hlt | ⟨heq, -⟩
  · exact hlt.le
  · exact heq.le

variable {p p' : Pool} {t : Slot}

theorem ranks_congr (h : d.heap[i]? = some x)
    (h' : d'.heap[i]? = some x) (hx : d'.deadlineCycles x = d.deadlineCycles x) :
    d'.ranks i = d.ranks i := by
  rw [ranks_of_getElem? h, ranks_of_getElem? h', DeadlineHeap.rank, DeadlineHeap.rank, hx]

/-! ## Inserting -/

theorem deadlineInsert_cases (p : Pool) (t : Slot) (deadline result : ℕ) (memory : Bool) :
    ((deadlineInsert p t deadline result memory).1 ≠ .ok ∧
      (deadlineInsert p t deadline result memory).2 = p) ∨
    (validThread p t ∧ p.state t = .blocked ∧ deadline ≠ kernelThreadDeadlineNever ∧
      p.deadlines.deadlinePosition t = none ∧ memory = true) := by
  unfold deadlineInsert
  split_ifs with hgate hmemory
  · exact .inl ⟨by simp, rfl⟩
  · exact .inl ⟨by simp, rfl⟩
  · push Not at hgate
    exact .inr ⟨hgate.1, hgate.2.1, hgate.2.2.1, hgate.2.2.2, by simpa using hmemory⟩

theorem deadlineInsert_sound (h : HeapSound p.deadlines) (hv : validThread p t)
    (hb : p.state t = .blocked) {deadline : ℕ} (hd : deadline ≠ kernelThreadDeadlineNever)
    (hpos : p.deadlines.deadlinePosition t = none) (hroom : p.deadlines.heap.length + 1 ≤ 65535)
    (result : ℕ) :
    ∃ d, deadlineInsert p t deadline result true = (.ok, { p with deadlines := d }) ∧
      HeapSound d ∧ d.heap.Perm (p.deadlines.heap ++ [t]) ∧
      d.deadlineCycles = update p.deadlines.deadlineCycles t deadline := by
  have ht : t ∉ p.deadlines.heap := fun hm => (h.shape.mem_iff t).1 hm hpos
  obtain ⟨d, hins, hshape, hperm, hcycles, -⟩ := deadlineInsert_spec h.shape hv hb ht hd result
  have hlen : d.heap.length = p.deadlines.heap.length + 1 := by simpa using hperm.length_eq
  refine ⟨d, hins, ⟨hshape, ?_, by omega, fun x hx => ?_⟩, hperm, hcycles⟩
  · unfold deadlineInsert at hins
    rw [if_neg (by simp [hv, hb, hd, hpos]), if_neg (by simp)] at hins
    have hd' := congrArg (fun r => r.2.deadlines) hins
    dsimp only at hd'
    rw [← hd']
    refine siftUp_order (by simp) (by simp) ?_
    simp only [length_append, length_singleton]
    refine IsHeap.append h.order fun i hi => ?_
    have hx := List.getElem?_eq_getElem hi
    refine ranks_congr hx (by simp [List.getElem?_append_left hi]) (update_of_ne ?_ _ _)
    intro he
    exact ht (he ▸ getElem_mem hi)
  · rw [hcycles, update_apply]
    split_ifs with hxt
    · exact hd
    · exact h.finite x ((mem_append.1 (hperm.mem_iff.1 hx)).resolve_right (by simpa using hxt))

/-! ## Removing -/

theorem Undeadlined.length_le (h : Undeadlined d d' t) : d'.heap.length ≤ d.heap.length :=
  (h.shape.nodup.subperm fun x hx => ((h.mem x).1 hx).1).length_le

theorem ranks_takeOut (h : HeapShape d)
    (ht : d.heap[position]? = some t) (hi : i < d.heap.length - 1) (hne : i ≠ position) :
    (d.takeOut t position last).ranks i = d.ranks i := by
  have hx := List.getElem?_eq_getElem (show i < d.heap.length by omega)
  refine ranks_congr hx ?_ (update_of_ne (fun he => hne ?_) _ _)
  · change (d.heap.dropLast.set position last)[i]? = _
    rw [List.getElem?_set_ne hne.symm, List.getElem?_dropLast, if_pos (by omega), hx]
  · have h1 := (h t i).2 (he ▸ hx)
    have h2 := (h t position).2 ht
    exact Option.some.inj (h1.symm.trans h2)

theorem Undeadlined.length_lt (h : Undeadlined d d' t) (ht : t ∈ d.heap) :
    d'.heap.length < d.heap.length := by
  have hnot : t ∉ d'.heap := fun hx => ((h.mem t).1 hx).2 rfl
  refine ((nodup_cons.2 ⟨hnot, h.shape.nodup⟩).subperm fun x hx => ?_).length_le
  rcases mem_cons.1 hx with rfl | hx
  · exact ht
  · exact ((h.mem x).1 hx).1

theorem Undeadlined.rearranged {d₁ : DeadlineHeap} (h : Undeadlined d d₁ t)
    (hshape : HeapShape d') (hre : Rearranged d₁ d') : Undeadlined d d' t where
  shape := hshape
  mem x := hre.perm.mem_iff.trans (h.mem x)
  cycles x hx := by rw [hre.cycles, h.cycles x hx]
  result x hx := by rw [hre.result, h.result x hx]

theorem HeapShape.takeEnd (h : HeapShape d) (ht : d.heap.getLast? = some t) :
    Undeadlined d ⟨d.heap.dropLast, update d.deadlinePosition t none, update d.deadlineCycles t 0,
      update d.deadlineResult t 0⟩ t := by
  have hheap : d.heap = d.heap.dropLast ++ [t] := (dropLast_append_getLast? t ht).symm
  have hn := h.nodup
  rw [hheap, nodup_append] at hn
  refine ⟨h.pop hheap _ _, fun x => ?_, fun x hx => update_of_ne hx .., fun x hx =>
    update_of_ne hx ..⟩
  have hlast : t ∉ d.heap.dropLast := fun hm =>
    hn.2.2 t hm t (mem_singleton_self _) rfl
  have hmem : x ∈ d.heap ↔ x ∈ d.heap.dropLast ∨ x = t := by
    rw [← mem_singleton, ← mem_append, ← hheap]
  change x ∈ d.heap.dropLast ↔ _
  rw [hmem]
  exact ⟨fun hx => ⟨.inl hx, fun he => hlast (he ▸ hx)⟩, fun ⟨hx, hne⟩ => hx.resolve_right hne⟩

theorem HeapShape.takeOut (h : HeapShape d)
    (hlast : d.heap.getLast? = some last) (ht : d.heap[position]? = some t)
    (hin : position + 1 < d.heap.length) : Undeadlined d (d.takeOut t position last) t := by
  have hheap : d.heap = d.heap.dropLast ++ [last] := (dropLast_append_getLast? last hlast).symm
  have hs : HeapShape (d.takeOut t position last) :=
    h.replace hheap ht (by rw [length_dropLast]; omega) _ _
  have hlt : last ≠ t := by
    rintro rfl
    have h1 := (h last position).2 ht
    have h2 := (h last (d.heap.length - 1)).2 (by rw [← List.getLast?_eq_getElem?, hlast])
    have := Option.some.inj (h1.symm.trans h2)
    omega
  have hpos : d.deadlinePosition last ≠ none :=
    (h.mem_iff last).1 (mem_of_getLast? hlast)
  refine ⟨hs, fun x => ?_, fun x hx => update_of_ne hx .., fun x hx => update_of_ne hx ..⟩
  rw [hs.mem_iff, h.mem_iff]
  simp only [DeadlineHeap.takeOut, update_apply]
  split_ifs with h1 h2
  · simp [h1, hlt, hpos]
  · simp [h2]
  · simp [h2]

theorem takeOut_order {d : DeadlineHeap} {position : ℕ} {last : Slot} (h : HeapShape d)
    (horder : HeapOrder d) (ht : d.heap[position]? = some t) (hin : position + 1 < d.heap.length) :
    (position ≠ 0 ∧ precedesAt (d.takeOut t position last) position ((position - 1) / 2) →
      Rising (d.takeOut t position last).ranks (d.takeOut t position last).heap.length position) ∧
    (¬(position ≠ 0 ∧ precedesAt (d.takeOut t position last) position ((position - 1) / 2)) →
      Sinking (d.takeOut t position last).ranks (d.takeOut t position last).heap.length
        position) := by
  have hlen : (d.takeOut t position last).heap.length = d.heap.length - 1 := by
    simp [DeadlineHeap.takeOut]
  have hold : IsHeap d.ranks (d.heap.length - 1 + 1) := by
    rw [Nat.sub_add_cancel (by omega)]
    exact horder
  have hcell : ∀ i < d.heap.length - 1, i ≠ position →
      (d.takeOut t position last).ranks i = d.ranks i :=
    fun i hi hne => ranks_takeOut h ht hi hne
  have hprec := precedesAt_iff (d.takeOut t position last) (i := position)
    (j := (position - 1) / 2) (by omega) (by omega)
  rw [hlen]
  refine ⟨fun hrises => hold.replace_rising (by omega) hcell (by omega) (hprec.1 hrises.2),
    fun hstays => hold.replace_sinking (by omega) hcell fun hpos => not_lt.1 fun hlt => ?_⟩
  exact hstays ⟨by omega, hprec.2 hlt⟩

theorem takeEnd_order (h : HeapShape d) (horder : HeapOrder d)
    (ht : d.heap[d.heap.length - 1]? = some t) :
    HeapOrder ⟨d.heap.dropLast, update d.deadlinePosition t none, update d.deadlineCycles t 0,
      update d.deadlineResult t 0⟩ := by
  have hkeep : ∀ j < d.heap.length - 1, DeadlineHeap.ranks ⟨d.heap.dropLast,
      update d.deadlinePosition t none, update d.deadlineCycles t 0,
      update d.deadlineResult t 0⟩ j = d.ranks j := by
    intro j hj
    have hx := List.getElem?_eq_getElem (show j < d.heap.length by omega)
    refine ranks_congr hx (by rw [List.getElem?_dropLast, if_pos hj, hx])
      (update_of_ne (fun he => ?_) _ _)
    have h1 := (h t j).2 (he ▸ hx)
    have h2 := Option.some.inj (h1.symm.trans ((h t _).2 ht))
    omega
  intro i hi hn
  simp only [length_dropLast] at hn
  rw [hkeep i hn, hkeep _ (by omega)]
  exact horder i hi (by omega)

theorem deadlineRemove_sound (h : HeapSound p.deadlines) (hv : validThread p t)
    (hfits : RemovalFits p.deadlines t) :
    ∃ d, deadlineRemove p t = (.ok, { p with deadlines := d }) ∧ Undeadlined p.deadlines d t ∧
      HeapSound d ∧ SiftReturns p.deadlines t d := by
  obtain ⟨d, hrem, hun⟩ := deadlineRemove_spec h.shape hv
  have hfinite : ∀ x ∈ d.heap, d.deadlineCycles x ≠ kernelThreadDeadlineNever := fun x hx => by
    obtain ⟨hx, hxt⟩ := (hun.mem x).1 hx
    rw [hun.cycles x hxt]
    exact h.finite x hx
  have hsmall := hun.length_le.trans h.small
  suffices hmain : HeapOrder d ∧ SiftReturns p.deadlines t d from
    ⟨d, hrem, hun, ⟨hun.shape, hmain.1, hsmall, hfinite⟩, hmain.2⟩
  unfold deadlineRemove at hrem
  rw [if_neg (by simpa using hv)] at hrem
  rcases hpos : p.deadlines.deadlinePosition t with _ | position
  · rw [hpos] at hrem
    have hd := congrArg (fun r => r.2.deadlines) hrem
    dsimp only at hd
    rw [← hd]
    exact ⟨h.order, fun i _ hs => by simp [hs.isAt] at hpos⟩
  have hti := (h.shape t position).1 hpos
  obtain ⟨hlt, -⟩ := List.getElem?_eq_some_iff.1 hti
  obtain ⟨last, hlast⟩ : ∃ last, p.deadlines.heap.getLast? = some last := by
    rcases hl : p.deadlines.heap.getLast? with _ | last
    · rw [List.getLast?_eq_none_iff] at hl
      simp [hl] at hlt
    · exact ⟨last, rfl⟩
  rw [hpos] at hrem
  simp only [hti, ne_eq, not_true, if_false, hlast, length_dropLast] at hrem
  split_ifs at hrem with hend hrises
  · -- the last entry itself goes
    have hd := congrArg (fun r => r.2.deadlines) hrem
    dsimp only at hd
    rw [← hd]
    refine ⟨takeEnd_order h.shape h.order ?_, fun i _ hs => ?_⟩
    · rw [← hti]
      congr 1
      omega
    · have h1 := Option.some.inj (hs.isAt.symm.trans hpos)
      have h2 := hs.inside
      omega
  all_goals
    have hd := congrArg (fun r => r.2.deadlines) hrem
    dsimp only at hd
    have hlen : (p.deadlines.takeOut t position last).heap.length =
        p.deadlines.heap.length - 1 := by simp [DeadlineHeap.takeOut]
    have hmoves := @takeOut_order t p.deadlines position last h.shape h.order hti (by omega)
  · rw [← hd]
    refine ⟨siftUp_order (d := p.deadlines.takeOut t position last) (by omega) (by omega)
      (hmoves.1 hrises), fun i l hs => ?_⟩
    cases hpos.symm.trans hs.isAt
    cases hlast.symm.trans hs.isLast
    exact absurd hrises hs.stays
  · have hsinks : SinksAfter p.deadlines t position last :=
      ⟨hpos, hlast, by omega, hrises⟩
    obtain ⟨hends, horder⟩ := @siftDown_order (p.deadlines.heap.length - 1) _ _ (by omega)
      (by omega) (by have := h.small; omega) (hmoves.2 hrises) (hfits position last hsinks)
    rw [← hd]
    refine ⟨horder, fun i l hs => ?_⟩
    cases hpos.symm.trans hs.isAt
    cases hlast.symm.trans hs.isLast
    exact hends

/-! ## Expiring -/

theorem enqueueReady_deadlines (p : Pool) (t : Slot) :
    (enqueueReady p t).2.deadlines = p.deadlines := by
  unfold enqueueReady
  split
  · rfl
  · dsimp only
    split <;> split <;> rfl

theorem completeWait_deadlines {R : ℕ → List Slot} {Q : QueueRef → List Registration}
    {S : Finset Registration} {D : Slot → List Slot} (h : Sound p R Q S D none)
    (hv : validThread p t) (hb : p.state t = .blocked)
    (hpos : p.deadlines.deadlinePosition t = none) {result : ℕ}
    (hok : completeWait p t none none result 0 false = (.ok, p')) :
    p'.deadlines = p.deadlines := by
  obtain ⟨d, w₁, h1, h2, prio, rq, w, dn, h3, -⟩ := withdraw_spec h (.inl rfl) hv hb none
  have hm : p.waits.waitMemberCount t ≠ 0 := (h.queued.waiting t hv).2 ⟨hb, by simp⟩
  have hd : d = p.deadlines := by
    have hnone : deadlineRemove p t = (.ok, p) := by simp [deadlineRemove, hv, hpos]
    rw [hnone] at h1
    exact (congrArg (fun r => r.2.deadlines) h1).symm
  unfold completeWait at hok
  rw [if_neg (by simp [hv, hb, hm])] at hok
  simp only [h1, Result.andThen_ok, h2, h3, Result.orCorrupt_ok] at hok
  rw [← hd]
  have hready : ∀ q : Pool, q.deadlines = d → completeReady q t result = (.ok, p') →
      p'.deadlines = d := by
    intro q hq hrun
    unfold completeReady at hrun
    rw [notifyWaitObserver_eq] at hrun
    dsimp only at hrun
    split at hrun
    · rw [← (Prod.mk.inj hrun).2]
      exact hq
    · have henq := enqueueReady_deadlines { q with
        state := update q.state t .ready
        waitObserver := update q.waitObserver t none
        observed := q.observed ++ notice { q with state := update q.state t .ready } t result } t
      unfold Result.orCorrupt at hrun
      split at hrun
      · rename_i p₁ heq
        rw [heq] at henq
        rw [← (Prod.mk.inj hrun).2]
        exact henq.trans hq
      · simp at hrun
  refine hready _ ?_ hok
  rw [completeContext_eq]
  split <;> rfl

/-- One turn of the loop of `kernel_thread_expire_deadlines`, on the root's thread. -/
def expireTurn (p : Pool) (t : Slot) : Result :=
  (deadlineRemove p t).andThen fun p' =>
    completeWait p' t none none (p.deadlines.deadlineResult t) 0 false

/-- The turns that an expiry takes, and the threads that they are on, one after the other. -/
inductive ExpireTurns (now : ℕ) : Pool → List Slot → Pool → Prop
  | none (p : Pool) : ExpireTurns now p [] p
  | turn {p p₁ p' : Pool} {t : Slot} {ts : List Slot} : p.deadlines.heap.head? = some t →
      p.deadlines.deadlineCycles t ≤ now → expireTurn p t = (.ok, p₁) →
      ExpireTurns now p₁ ts p' → ExpireTurns now p (t :: ts) p'

/-- Each removal that an expiry makes fits, in the pool it is made in. -/
def ExpireFits (p : Pool) (now : ℕ) : Prop :=
  ∀ ts p₁ t, ExpireTurns now p ts p₁ → p₁.deadlines.heap.head? = some t →
    p₁.deadlines.deadlineCycles t ≤ now → RemovalFits p₁.deadlines t

theorem ExpireFits.turn {p₁ : Pool} {now : ℕ} (h : ExpireFits p now)
    (ht : p.deadlines.heap.head? = some t) (hnow : p.deadlines.deadlineCycles t ≤ now)
    (hturn : expireTurn p t = (.ok, p₁)) : ExpireFits p₁ now :=
  fun ts p₂ x hts => h (t :: ts) p₂ x (.turn ht hnow hturn hts)

/-- What always holds of the pool between two calls on it. -/
def PoolSound (p : Pool) : Prop := ∃ R Q S D, Sound p R Q S D none

theorem expireTurn_sound (hp : PoolSound p) (h : HeapSound p.deadlines)
    (ht : p.deadlines.heap.head? = some t) (hfits : RemovalFits p.deadlines t) :
    ∃ p', expireTurn p t = (.ok, p') ∧ PoolSound p' ∧ HeapSound p'.deadlines ∧
      Undeadlined p.deadlines p'.deadlines t ∧ p'.state = update p.state t .ready := by
  obtain ⟨R, Q, S, D, hs⟩ := hp
  have hmem : t ∈ p.deadlines.heap := mem_of_head? ht
  obtain ⟨hv, hb⟩ := hs.steady.timed t hmem
  obtain ⟨d, hrem, hun, hd, -⟩ := deadlineRemove_sound h hv hfits
  obtain ⟨p', hturn, hdone, R', Q', hs'⟩ := expireTurn_spec hs hmem (p.deadlines.deadlineResult t)
  have hs₁ : Sound { p with deadlines := d } R Q S D none :=
    ⟨{ hs.queued with }, { hs.donated with }, { hs.steady with
      heap := hun.shape
      timed := fun x hx => hs.steady.timed x ((hun.mem x).1 hx).1 }⟩
  have hpos : d.deadlinePosition t = none := by
    by_contra hne
    exact ((hun.mem t).1 ((hun.shape.mem_iff t).2 hne)).2 rfl
  have hd' : p'.deadlines = d := by
    rw [hrem, Result.andThen_ok] at hturn
    exact completeWait_deadlines hs₁ hv hb hpos hturn
  refine ⟨p', hturn, ⟨R', Q', _, _, hs'⟩, hd' ▸ hd, hd' ▸ hun, ?_⟩
  obtain ⟨prio, rq, w, dn, d', rfl, -⟩ := hdone.eq
  rfl

/-- What an expiry does: it completes the waits of the threads whose deadline has come, the least
deadline first, and of no others. -/
structure Expires (p : Pool) (now : ℕ) (ts : List Slot) (p' : Pool) : Prop where
  turns : ExpireTurns now p ts p'
  due : ∀ t, t ∈ ts ↔ t ∈ p.deadlines.heap ∧ p.deadlines.deadlineCycles t ≤ now
  rest : ∀ t, t ∈ p'.deadlines.heap ↔ t ∈ p.deadlines.heap ∧ now < p.deadlines.deadlineCycles t
  nodup : ts.Nodup
  sorted : ts.Pairwise fun t x => p.deadlines.deadlineCycles t ≤ p.deadlines.deadlineCycles x
  ready : ∀ t ∈ ts, p'.state t = .ready
  others : ∀ t ∉ ts, p'.state t = p.state t

theorem expireDeadlines_sound (now : ℕ) : ∀ (fuel : ℕ) {p : Pool} (expired highest : ℕ),
    PoolSound p → HeapSound p.deadlines → ExpireFits p now → p.deadlines.heap.length ≤ fuel →
    ∃ ts p' m, expireDeadlines now fuel p expired highest = ((.ok, p'), expired + ts.length, m) ∧
      Expires p now ts p' ∧ HeapSound p'.deadlines := by
  intro fuel
  induction fuel with
  | zero =>
    intro p expired highest hp h hfits hl
    have hnil : p.deadlines.heap = [] := eq_nil_of_length_eq_zero (Nat.le_zero.1 hl)
    refine ⟨[], p, highest, ?_, ⟨.none p, by simp [hnil], by simp [hnil], .nil, .nil, by simp,
      fun _ _ => rfl⟩, h⟩
    unfold expireDeadlines
    rw [hnil]
    rfl
  | succ fuel ih =>
    intro p expired highest hp h hfits hl
    rcases hhead : p.deadlines.heap.head? with _ | t
    · have hnil : p.deadlines.heap = [] := List.head?_eq_none_iff.1 hhead
      refine ⟨[], p, highest, ?_, ⟨.none p, by simp [hnil], by simp [hnil], .nil, .nil, by simp,
      fun _ _ => rfl⟩, h⟩
      unfold expireDeadlines
      rw [hhead]
      rfl
    have hmem : t ∈ p.deadlines.heap := mem_of_head? hhead
    have hleast : ∀ x ∈ p.deadlines.heap,
        p.deadlines.deadlineCycles t ≤ p.deadlines.deadlineCycles x := fun x => h.order.head_le hhead
    obtain ⟨R, Q, S, D, hs⟩ := hp
    obtain ⟨hv, hb⟩ := hs.steady.timed t hmem
    have hm : p.waits.waitMemberCount t ≠ 0 := (hs.queued.waiting t hv).2 ⟨hb, by simp⟩
    by_cases hnow : now < p.deadlines.deadlineCycles t
    · refine ⟨[], p, highest, ?_, ⟨.none p, fun x => ?_, fun x => ?_, .nil, .nil, by simp,
        fun _ _ => rfl⟩, h⟩
      · unfold expireDeadlines
        rw [hhead]
        simp [hv, hnow]
      · have := hleast x
        simp only [not_mem_nil, false_iff, not_and, not_le]
        exact fun hx => hnow.trans_le (this hx)
      · exact ⟨fun hx => ⟨hx, hnow.trans_le (hleast x hx)⟩, And.left⟩
    have hdue : p.deadlines.deadlineCycles t ≤ now := not_lt.1 hnow
    obtain ⟨p₁, hturn, hp₁, h₁, hun, hstate⟩ := expireTurn_sound ⟨R, Q, S, D, hs⟩ h hhead
      (hfits [] p t (.none p) hhead hdue)
    have hlt : p₁.deadlines.heap.length < p.deadlines.heap.length := by
      have hsub : (t :: p₁.deadlines.heap).Subperm p.deadlines.heap := by
        refine List.Nodup.subperm ?_ fun x hx => ?_
        · exact nodup_cons.2 ⟨fun hx => ((hun.mem t).1 hx).2 rfl, h₁.shape.nodup⟩
        · rcases mem_cons.1 hx with rfl | hx
          · exact hmem
          · exact ((hun.mem x).1 hx).1
      exact hsub.length_le
    obtain ⟨ts, p', m, hrun, hexp, h'⟩ := ih (expired + 1)
      (if expired = 0 ∨ highest < p₁.prio.effectivePriority t then p₁.prio.effectivePriority t
        else highest) hp₁ h₁ (hfits.turn hhead hdue hturn) (by omega)
    have hin : ∀ x, x ∈ ts ↔ (x ∈ p.deadlines.heap ∧ x ≠ t) ∧ p.deadlines.deadlineCycles x ≤ now :=
      fun x => by
        rw [hexp.due x, hun.mem x]
        exact and_congr_right fun hx => by rw [hun.cycles x hx.2]
    refine ⟨t :: ts, p', m, ?_, ⟨.turn hhead hdue hturn hexp.turns, fun x => ?_, fun x => ?_,
      ?_, ?_, fun x hx => ?_, fun x hx => ?_⟩, h'⟩
    · unfold expireDeadlines
      rw [hhead]
      unfold expireTurn at hturn
      simp only [hv, not_true, if_false, hnow, hb, hm, ne_eq, or_self, hturn, hrun]
      rw [length_cons]
      congr 2
      omega
    · rw [mem_cons, hin]
      rcases eq_or_ne x t with rfl | hxt
      · simp [hmem, hdue]
      · simp [hxt]
    · rw [hexp.rest x, hun.mem x]
      rcases eq_or_ne x t with rfl | hxt
      · simp [hdue]
      · simp [hxt, hun.cycles x hxt]
    · exact nodup_cons.2 ⟨fun hx => ((hin t).1 hx).1.2 rfl, hexp.nodup⟩
    · refine pairwise_cons.2 ⟨fun x hx => hleast x ((hin x).1 hx).1.1, ?_⟩
      refine hexp.sorted.imp_of_mem fun {x y} hx hy hle => ?_
      rwa [hun.cycles x ((hin x).1 hx).1.2, hun.cycles y ((hin y).1 hy).1.2] at hle
    · rcases mem_cons.1 hx with rfl | hx
      · rw [hexp.others x fun hx => ((hin x).1 hx).1.2 rfl, hstate]
        exact update_self ..
      · exact hexp.ready x hx
    · rw [mem_cons, not_or] at hx
      rw [hexp.others x hx.2, hstate]
      exact update_of_ne hx.1 ..

theorem deadlineHeapValid_of_sound (hp : PoolSound p) (h : HeapSound p.deadlines) :
    deadlineHeapValid p := by
  obtain ⟨R, Q, S, D, hs⟩ := hp
  refine ⟨fun i hi t ht => ?_, fun t _ _ i hi => (h.shape t i).1 hi⟩
  have hti : p.deadlines.heap[i]? = some t := ht
  have hmem := mem_of_getElem? hti
  obtain ⟨hv, hb⟩ := hs.steady.timed t hmem
  have hchild : ∀ c, 0 < c → (c - 1) / 2 = i → ¬precedesAt p.deadlines c i = true := by
    intro c hpos hpar hprec
    have hc : c < p.deadlines.heap.length := by
      by_contra hge
      rw [precedesAt, List.getElem?_eq_none (not_lt.1 hge)] at hprec
      simp at hprec
    have hle := h.order c hpos hc
    rw [hpar] at hle
    exact absurd ((precedesAt_iff _ hc hi).1 hprec) (not_lt.2 hle)
  refine ⟨hv, (h.shape t i).2 hti, hb, (hs.queued.waiting t hv).2 ⟨hb, by simp⟩, h.finite t hmem,
    fun htake => ?_, hchild _ (by omega) (by omega), hchild _ (by omega) (by omega)⟩
  obtain ⟨j, hjt⟩ := mem_iff_getElem?.1 htake
  rw [List.getElem?_take] at hjt
  split_ifs at hjt with hj
  have h1 := (h.shape t j).2 hjt
  have h2 := (h.shape t i).2 hti
  have := Option.some.inj (h1.symm.trans h2)
  omega

theorem kernelThreadExpireDeadlines_sound (hp : PoolSound p) (h : HeapSound p.deadlines) (now : ℕ)
    (hfits : ExpireFits p now) :
    ∃ ts p' m, kernelThreadExpireDeadlines p now = ((.ok, p'), ts.length, m) ∧
      Expires p now ts p' ∧ HeapSound p'.deadlines := by
  obtain ⟨ts, p', m, hrun, hexp, h'⟩ := expireDeadlines_sound now _ 0 0 hp h hfits le_rfl
  rw [Nat.zero_add] at hrun
  refine ⟨ts, p', m, ?_, hexp, h'⟩
  rw [kernelThreadExpireDeadlines, if_neg, hrun]
  rintro ⟨-, hinvalid⟩
  exact hinvalid (deadlineHeapValid_of_sound hp h)

theorem kernelThreadNextDeadline_sound (hp : PoolSound p) (h : HeapSound p.deadlines) :
    (p.deadlines.heap = [] ∧ kernelThreadNextDeadline p = none) ∨
      ∃ t ∈ p.deadlines.heap, kernelThreadNextDeadline p = some (p.deadlines.deadlineCycles t) ∧
        ∀ x ∈ p.deadlines.heap, p.deadlines.deadlineCycles t ≤ p.deadlines.deadlineCycles x := by
  obtain ⟨R, Q, S, D, hs⟩ := hp
  unfold kernelThreadNextDeadline
  rcases hhead : p.deadlines.heap.head? with _ | t
  · exact .inl ⟨List.head?_eq_none_iff.1 hhead, rfl⟩
  · have hmem := mem_of_head? hhead
    have hpos : p.deadlines.deadlinePosition t = some 0 :=
      (h.shape t 0).2 (by rw [← List.head?_eq_getElem?, hhead])
    refine .inr ⟨t, hmem, ?_, fun x => h.order.head_le hhead⟩
    simp [(hs.steady.timed t hmem).1, hpos]

/-! ## Runs -/

/-- The pools of a run in which each removal meets `Fits`. What else happens between the operations
on the heap may change all the rest of the pool. `deadline_reserve` refuses what 16 bits cannot
count. -/
inductive DeadlineRun (Fits : DeadlineHeap → Slot → Prop) : Pool → Prop
  | start {p : Pool} : p.deadlines = ⟨[], fun _ => none, fun _ => 0, fun _ => 0⟩ → DeadlineRun Fits p
  | insert {p : Pool} (t : Slot) (deadline timeoutResult : ℕ) (memory : Bool) :
      DeadlineRun Fits p → (memory = true → p.deadlines.heap.length + 1 ≤ 65535) →
      DeadlineRun Fits (deadlineInsert p t deadline timeoutResult memory).2
  | remove {p : Pool} (t : Slot) : DeadlineRun Fits p → Fits p.deadlines t →
      DeadlineRun Fits (deadlineRemove p t).2
  | expire {p : Pool} (now : ℕ) : DeadlineRun Fits p → PoolSound p →
      (∀ ts p₁ t, ExpireTurns now p ts p₁ → p₁.deadlines.heap.head? = some t →
        p₁.deadlines.deadlineCycles t ≤ now → Fits p₁.deadlines t) →
      DeadlineRun Fits (kernelThreadExpireDeadlines p now).1.2
  | other {p p' : Pool} : DeadlineRun Fits p → p'.deadlines = p.deadlines → DeadlineRun Fits p'

theorem deadlineRemove_invalid (hv : ¬validThread p t) : (deadlineRemove p t).2 = p := by
  rw [deadlineRemove, if_pos hv]

theorem DeadlineRun.heapSound (h : DeadlineRun RemovalFits p) : HeapSound p.deadlines := by
  induction h with
  | start hempty =>
    rw [hempty]
    exact ⟨fun t i => by simp, fun i _ hi => by simp at hi, by simp, by simp⟩
  | @insert p t deadline result memory _ hroom ih =>
    rcases deadlineInsert_cases p t deadline result memory with ⟨-, hsame⟩ | ⟨hv, hb, hd, hpos, rfl⟩
    · rw [hsame]
      exact ih
    · obtain ⟨d, hins, hd', -⟩ := deadlineInsert_sound ih hv hb hd hpos (hroom rfl) result
      rw [hins]
      exact hd'
  | @remove p t _ hfits ih =>
    by_cases hv : validThread p t
    · obtain ⟨d, hrem, -, hd, -⟩ := deadlineRemove_sound ih hv hfits
      rw [hrem]
      exact hd
    · rw [deadlineRemove_invalid hv]
      exact ih
  | expire now _ hp hfits ih =>
    obtain ⟨ts, p', m, hrun, -, h'⟩ := kernelThreadExpireDeadlines_sound hp ih now hfits
    rw [hrun]
    exact h'
  | other _ hsame ih =>
    rw [hsame]
    exact ih

def firstPath : List ℕ :=
  [1, 3, 7, 15, 31, 63, 127, 255, 511, 1023, 2047, 4095, 8191, 16383, 32767]

def laidDeadline (t : Slot) : ℕ :=
  if t = 0 then 0 else if t = 2 then 1 else if t ∈ firstPath ∨ t = 32768 then 2 else 3

def laidHeap (n : ℕ) : DeadlineHeap where
  heap := List.range n
  deadlinePosition t := if t < n then some t else none
  deadlineCycles t := if t < n then laidDeadline t else 0
  deadlineResult t := if t < n then 1 else 0

theorem laidDeadline_parent (hn : 0 < n) : laidDeadline ((n - 1) / 2) ≤ laidDeadline n := by
  have hle : ∀ t, laidDeadline t ≤ 3 := fun t => by
    unfold laidDeadline
    split_ifs <;> omega
  have hpath : ∀ t ∈ firstPath, laidDeadline ((t - 1) / 2) ≤ 2 := by decide
  have hparent := hle ((n - 1) / 2)
  have h0 : n ≠ 0 := by omega
  by_cases h2 : n = 2
  · subst h2
    decide
  by_cases hin : n ∈ firstPath ∨ n = 32768
  · have : laidDeadline n = 2 := by rw [laidDeadline, if_neg h0, if_neg h2, if_pos hin]
    rw [this]
    rcases hin with hin | rfl
    · exact hpath n hin
    · decide
  · have : laidDeadline n = 3 := by rw [laidDeadline, if_neg h0, if_neg h2, if_neg hin]
    omega

theorem getElem?_laidHeap (hi : i < n) : (laidHeap n).heap[i]? = some i := by
  simp [laidHeap, hi]

theorem heapShape_laidHeap (n : ℕ) : HeapShape (laidHeap n) := by
  intro t i
  by_cases hi : i < n
  · rw [getElem?_laidHeap hi]
    simp only [laidHeap, Option.some.injEq]
    split_ifs with ht
    · simp [eq_comm]
    · simp only [false_iff]
      rintro rfl
      exact ht hi
  · have hnone : (laidHeap n).heap[i]? = none :=
      List.getElem?_eq_none (by simp [laidHeap]; omega)
    rw [hnone]
    simp only [laidHeap, reduceCtorEq, iff_false]
    split_ifs with ht
    · simp only [Option.some.injEq]
      rintro rfl
      exact hi ht
    · simp

theorem deadlineInsert_laidHeap {p : Pool} (hp : p.deadlines = laidHeap n)
    (hv : validThread p n) (hb : p.state n = .blocked) :
    deadlineInsert p n (laidDeadline n) 1 true = (.ok, { p with deadlines := laidHeap (n + 1) }) := by
  have hnever : laidDeadline n ≠ kernelThreadDeadlineNever := by
    unfold laidDeadline
    split_ifs <;> decide
  have hpos : p.deadlines.deadlinePosition n = none := by simp [hp, laidHeap]
  have hheap : (⟨p.deadlines.heap ++ [n],
      update p.deadlines.deadlinePosition n (some p.deadlines.heap.length),
      update p.deadlines.deadlineCycles n (laidDeadline n),
      update p.deadlines.deadlineResult n 1⟩ : DeadlineHeap) = laidHeap (n + 1) := by
    have hlt : ∀ t, t ≠ n → (t < n + 1 ↔ t < n) := fun t ht => by omega
    rw [hp]
    simp only [laidHeap, range_succ, length_range, DeadlineHeap.mk.injEq, true_and]
    refine ⟨funext fun t => ?_, funext fun t => ?_, funext fun t => ?_⟩ <;>
      rcases eq_or_ne t n with rfl | ht
    · simp
    · simp only [update_of_ne ht, hlt t ht]
    · simp
    · simp only [update_of_ne ht, hlt t ht]
    · simp
    · simp only [update_of_ne ht, hlt t ht]
  have hlen : p.deadlines.heap.length = n := by simp [hp, laidHeap]
  unfold deadlineInsert
  rw [if_neg (by simp [hv, hb, hnever, hpos]), if_neg (by simp)]
  dsimp only
  rw [hheap, length_append, length_singleton, hlen, deadlineSiftUp]
  split_ifs with hzero
  · rfl
  · dsimp only
    rw [if_pos]
    have hn : n < (laidHeap (n + 1)).heap.length := by simp [laidHeap]
    rw [← Bool.not_eq_true, precedesAt_iff _ hn (by omega), not_lt]
    rw [ranks_of_getElem? (getElem?_laidHeap (show n < n + 1 by omega)),
      ranks_of_getElem? (getElem?_laidHeap (show (n - 1) / 2 < n + 1 by omega))]
    unfold DeadlineHeap.rank
    rw [Prod.Lex.toLex_le_toLex]
    have hle := laidDeadline_parent (n := n) (by omega)
    have hlt : (n - 1) / 2 < n + 1 := by omega
    simp only [laidHeap, hlt, if_true, Nat.lt_succ_self]
    omega

def waitingPool (d : DeadlineHeap) : Pool :=
  { kernelThreadPoolInit false with
    occupied := fun _ => true
    state := fun _ => .blocked
    deadlines := d }

theorem laidHeap_run : ∀ n ≤ 65535, DeadlineRun (fun _ _ => True) (waitingPool (laidHeap n))
  | 0, _ => .start (by simp [waitingPool, laidHeap])
  | n + 1, hn => by
    have hins := deadlineInsert_laidHeap (p := waitingPool (laidHeap n)) (n := n) rfl rfl rfl
    have hrun := DeadlineRun.insert n (laidDeadline n) 1 true (laidHeap_run n (by omega))
      fun _ => by
        change (List.range n).length + 1 ≤ 65535
        rw [length_range]
        omega
    rw [hins] at hrun
    exact hrun

theorem getElem?_deadlineSwap (hi : d.heap[i]? = some a)
    (hj : d.heap[j]? = some b) (hij : i ≠ j) (k : ℕ) :
    (deadlineSwap d i j).heap[k]? =
      if k = i then some b else if k = j then some a else d.heap[k]? := by
  obtain ⟨hil, -⟩ := List.getElem?_eq_some_iff.1 hi
  obtain ⟨hjl, -⟩ := List.getElem?_eq_some_iff.1 hj
  unfold deadlineSwap
  rw [hi, hj]
  simp only [List.getElem?_set, length_set, hil, hjl, if_true]
  rcases eq_or_ne k i with rfl | hki
  · simp [hij.symm]
  · simp [hki, hki.symm, eq_comm]

theorem deadlineCycles_deadlineSwap (d : DeadlineHeap) (i j : ℕ) :
    (deadlineSwap d i j).deadlineCycles = d.deadlineCycles := by
  unfold deadlineSwap
  split <;> rfl

theorem precedesAt_iff_cycles (hi : d.heap[i]? = some a)
    (hj : d.heap[j]? = some b) : precedesAt d i j = true ↔
      d.deadlineCycles a < d.deadlineCycles b ∨ d.deadlineCycles a = d.deadlineCycles b ∧ a < b := by
  rw [precedesAt, hi, hj]
  simp only [decide_eq_true_eq, deadlinePrecedes_iff, DeadlineHeap.rank]
  exact Prod.Lex.toLex_lt_toLex

def wrappedHeap : DeadlineHeap := (laidHeap 32769).takeOut 32767 32767 32768

theorem getElem?_wrappedHeap (hi : i < 32768) :
    wrappedHeap.heap[i]? = some (if i = 32767 then 32768 else i) := by
  simp only [wrappedHeap, DeadlineHeap.takeOut, laidHeap]
  by_cases hlast : i = 32767
  · rw [if_pos hlast, hlast, List.getElem?_set_self (by simp)]
  · rw [if_neg hlast, List.getElem?_set_ne (Ne.symm hlast), List.getElem?_dropLast,
      if_pos (by simp; omega), List.getElem?_range (by omega)]

theorem length_wrappedHeap : wrappedHeap.heap.length = 32768 := by
  simp [wrappedHeap, DeadlineHeap.takeOut, laidHeap]

theorem deadlineCycles_wrappedHeap {t : Slot} (ht : t < 32769) (hne : t ≠ 32767) :
    wrappedHeap.deadlineCycles t = laidDeadline t := by
  simp [wrappedHeap, DeadlineHeap.takeOut, laidHeap, ht, hne]

theorem siftDown_wrappedHeap : ∃ d, deadlineSiftDown 32768 wrappedHeap 32767 = d ∧
    d.heap[0]? = some 2 ∧ d.heap[16383]? = some 16383 ∧ d.heap[32767]? = some 0 ∧
    d.heap.length = 32768 ∧ d.deadlineCycles = wrappedHeap.deadlineCycles := by
  have h0 : wrappedHeap.heap[0]? = some 0 := getElem?_wrappedHeap (by decide)
  have h1 : wrappedHeap.heap[1]? = some 1 := getElem?_wrappedHeap (by decide)
  have h2 : wrappedHeap.heap[2]? = some 2 := getElem?_wrappedHeap (by decide)
  have h5 : wrappedHeap.heap[5]? = some 5 := getElem?_wrappedHeap (by decide)
  have h6 : wrappedHeap.heap[6]? = some 6 := getElem?_wrappedHeap (by decide)
  have hm : wrappedHeap.heap[16383]? = some 16383 := getElem?_wrappedHeap (by decide)
  have hl : wrappedHeap.heap[32767]? = some 32768 := getElem?_wrappedHeap (by decide)
  have c0 : wrappedHeap.deadlineCycles 0 = 0 := deadlineCycles_wrappedHeap (by decide) (by decide)
  have c1 : wrappedHeap.deadlineCycles 1 = 2 := deadlineCycles_wrappedHeap (by decide) (by decide)
  have c2 : wrappedHeap.deadlineCycles 2 = 1 := deadlineCycles_wrappedHeap (by decide) (by decide)
  have c5 : wrappedHeap.deadlineCycles 5 = 3 := deadlineCycles_wrappedHeap (by decide) (by decide)
  have c6 : wrappedHeap.deadlineCycles 6 = 3 := deadlineCycles_wrappedHeap (by decide) (by decide)
  have cx : wrappedHeap.deadlineCycles 32768 = 2 :=
    deadlineCycles_wrappedHeap (by decide) (by decide)
  have hlen := length_wrappedHeap
  have hroot : precedesAt wrappedHeap 0 32767 = true := by
    rw [precedesAt_iff_cycles h0 hl, c0, cx]
    decide
  have hnext : siftDownNext wrappedHeap 32767 = 0 := by
    simp [siftDownNext, hlen, hroot]
  have e1 := getElem?_deadlineSwap hl h0 (by decide)
  have hc1 := deadlineCycles_deadlineSwap wrappedHeap 32767 0
  have hlen1 := length_deadlineSwap wrappedHeap 32767 0
  generalize hd1 : deadlineSwap wrappedHeap 32767 0 = d1 at e1 hc1 hlen1
  have r0 : d1.heap[0]? = some 32768 := by rw [e1, if_neg (by decide), if_pos rfl]
  have r1 : d1.heap[1]? = some 1 := by rw [e1, if_neg (by decide), if_neg (by decide), h1]
  have r2 : d1.heap[2]? = some 2 := by rw [e1, if_neg (by decide), if_neg (by decide), h2]
  have hfirst : precedesAt d1 1 0 = true := by
    rw [precedesAt_iff_cycles r1 r0, hc1, c1, cx]
    decide
  have hsecond : precedesAt d1 2 1 = true := by
    rw [precedesAt_iff_cycles r2 r1, hc1, c1, c2]
    decide
  have hnext1 : siftDownNext d1 0 = 2 := by
    simp [siftDownNext, hlen1, hlen, hfirst, hsecond]
  have e2 := getElem?_deadlineSwap r0 r2 (by decide)
  have hc2 := deadlineCycles_deadlineSwap d1 0 2
  have hlen2 := length_deadlineSwap d1 0 2
  generalize hd2 : deadlineSwap d1 0 2 = d2 at e2 hc2 hlen2
  have s2 : d2.heap[2]? = some 32768 := by rw [e2, if_neg (by decide), if_pos rfl]
  have s5 : d2.heap[5]? = some 5 := by
    rw [e2, if_neg (by decide), if_neg (by decide), e1, if_neg (by decide), if_neg (by decide), h5]
  have s6 : d2.heap[6]? = some 6 := by
    rw [e2, if_neg (by decide), if_neg (by decide), e1, if_neg (by decide), if_neg (by decide), h6]
  have hthird : precedesAt d2 5 2 = false := by
    rw [← Bool.not_eq_true, precedesAt_iff_cycles s5 s2, hc2, hc1, c5, cx]
    decide
  have hfourth : precedesAt d2 6 2 = false := by
    rw [← Bool.not_eq_true, precedesAt_iff_cycles s6 s2, hc2, hc1, c6, cx]
    decide
  have hnext2 : siftDownNext d2 2 = 2 := by
    simp [siftDownNext, hthird, hfourth]
  have hrun : deadlineSiftDown 32768 wrappedHeap 32767 = d2 := by
    rw [deadlineSiftDown, hnext, if_neg (by decide), hd1, deadlineSiftDown, hnext1,
      if_neg (by decide), hd2, deadlineSiftDown, if_pos hnext2]
  refine ⟨d2, hrun, ?_, ?_, ?_, by omega, hc2.trans hc1⟩
  · rw [e2, if_pos rfl]
  · rw [e2, if_neg (by decide), if_neg (by decide), e1, if_neg (by decide), if_neg (by decide), hm]
  · rw [e2, if_neg (by decide), if_neg (by decide), e1, if_pos rfl]

theorem deadlineRemove_laidHeap {p : Pool} (hp : p.deadlines = laidHeap 32769)
    (hv : validThread p 32767) : deadlineRemove p 32767 =
      (.ok, { p with deadlines := deadlineSiftDown 32768 wrappedHeap 32767 }) := by
  have hpos : p.deadlines.deadlinePosition 32767 = some 32767 := by simp [hp, laidHeap]
  have hat : p.deadlines.heap[32767]? = some 32767 := hp ▸ getElem?_laidHeap (by decide)
  have hlast : p.deadlines.heap.getLast? = some 32768 := by
    rw [List.getLast?_eq_getElem?, hp]
    simp only [laidHeap, length_range]
    exact List.getElem?_range (by decide)
  have hlen : p.deadlines.heap.length = 32769 := by simp [hp, laidHeap]
  have hout : p.deadlines.takeOut 32767 32767 32768 = wrappedHeap := by rw [hp, wrappedHeap]
  have hm : wrappedHeap.heap[16383]? = some 16383 := getElem?_wrappedHeap (by decide)
  have hl : wrappedHeap.heap[32767]? = some 32768 := getElem?_wrappedHeap (by decide)
  have cm : wrappedHeap.deadlineCycles 16383 = 2 :=
    deadlineCycles_wrappedHeap (by decide) (by decide)
  have cx : wrappedHeap.deadlineCycles 32768 = 2 :=
    deadlineCycles_wrappedHeap (by decide) (by decide)
  have hstays : precedesAt wrappedHeap 32767 16383 = false := by
    rw [← Bool.not_eq_true, precedesAt_iff_cycles hl hm, cm, cx]
    decide
  unfold DeadlineHeap.takeOut at hout
  unfold deadlineRemove
  rw [if_neg (by simpa using hv), hpos]
  simp only [hat, ne_eq, not_true, if_false, hlast, length_dropLast, hlen, hout]
  simp [hstays]

end Astra
