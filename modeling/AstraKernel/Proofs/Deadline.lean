import AstraKernel.Thread.Deadline
import Mathlib.Data.List.Perm.Basic
import Mathlib.Data.List.Nodup

/-!
# What the deadline heap holds

A thread's position is where the heap has it. Sifting only moves threads about, so inserting adds
a thread to the heap's threads and removing takes one away.
-/

namespace Astra

open Function List

/-- Every thread of the heap knows its position, and no other has one. -/
def HeapShape (d : DeadlineHeap) : Prop :=
  ∀ t i, d.deadlinePosition t = some i ↔ d.heap[i]? = some t

structure Rearranged (d d' : DeadlineHeap) : Prop where
  perm : d'.heap.Perm d.heap
  cycles : d'.deadlineCycles = d.deadlineCycles
  result : d'.deadlineResult = d.deadlineResult

theorem Rearranged.refl (d : DeadlineHeap) : Rearranged d d :=
  ⟨.refl _, rfl, rfl⟩

theorem Rearranged.trans {d d' d'' : DeadlineHeap} (h : Rearranged d d') (h' : Rearranged d' d'') :
    Rearranged d d'' :=
  ⟨h'.perm.trans h.perm, h'.cycles.trans h.cycles, h'.result.trans h.result⟩

namespace HeapShape

variable {d : DeadlineHeap}

theorem mem_iff (h : HeapShape d) (t : Slot) : t ∈ d.heap ↔ d.deadlinePosition t ≠ none := by
  rw [Option.ne_none_iff_exists', mem_iff_getElem?]
  simp only [h t]

theorem nodup (h : HeapShape d) : d.heap.Nodup := by
  refine nodup_iff_injective_get.2 fun i j hij => Fin.ext ?_
  have hi : d.heap[i.1]? = some (d.heap.get i) := List.getElem?_eq_getElem i.2
  have hj : d.heap[j.1]? = some (d.heap.get i) := by rw [hij]; exact List.getElem?_eq_getElem j.2
  exact Option.some.inj (((h _ _).2 hi).symm.trans ((h _ _).2 hj))

theorem swap_perm {l : List Slot} {i j : ℕ} {a b : Slot} (hi : l[i]? = some a)
    (hj : l[j]? = some b) : ((l.set i b).set j a).Perm l := by
  obtain ⟨hil, rfl⟩ := List.getElem?_eq_some_iff.1 hi
  obtain ⟨hjl, rfl⟩ := List.getElem?_eq_some_iff.1 hj
  exact set_set_perm hil hjl

theorem swap (h : HeapShape d) (i j : ℕ) :
    HeapShape (deadlineSwap d i j) ∧ Rearranged d (deadlineSwap d i j) := by
  unfold deadlineSwap
  rcases hi : d.heap[i]? with _ | a
  · exact ⟨h, .refl d⟩
  rcases hj : d.heap[j]? with _ | b
  · exact ⟨h, .refl d⟩
  refine ⟨fun t k => ?_, swap_perm hi hj, rfl, rfl⟩
  obtain ⟨hil, -⟩ := List.getElem?_eq_some_iff.1 hi
  obtain ⟨hjl, -⟩ := List.getElem?_eq_some_iff.1 hj
  have hai := (h a i).2 hi
  have hbj := (h b j).2 hj
  have ht := h t k
  grind

theorem siftUp (h : HeapShape d) : ∀ (fuel position : ℕ),
    HeapShape (deadlineSiftUp fuel d position) ∧ Rearranged d (deadlineSiftUp fuel d position) := by
  intro fuel
  induction fuel generalizing d with
  | zero => exact fun _ => ⟨h, .refl d⟩
  | succ fuel ih =>
    intro position
    unfold deadlineSiftUp
    simp only []
    split_ifs
    · exact ⟨h, .refl d⟩
    · exact ⟨h, .refl d⟩
    · obtain ⟨h1, h2⟩ := h.swap position ((position - 1) / 2)
      exact (ih h1 _).imp_right h2.trans

theorem siftDown (h : HeapShape d) : ∀ (fuel position : ℕ),
    HeapShape (deadlineSiftDown fuel d position)
      ∧ Rearranged d (deadlineSiftDown fuel d position) := by
  intro fuel
  induction fuel generalizing d with
  | zero => exact fun _ => ⟨h, .refl d⟩
  | succ fuel ih =>
    intro position
    unfold deadlineSiftDown
    simp only []
    split_ifs
    · exact ⟨h, .refl d⟩
    · obtain ⟨h1, h2⟩ := h.swap position (siftDownNext d position)
      exact (ih h1 _).imp_right h2.trans

end HeapShape

theorem HeapShape.push {d : DeadlineHeap} (h : HeapShape d) {t : Slot} (ht : t ∉ d.heap)
    (cycles result : Slot → ℕ) :
    HeapShape ⟨d.heap ++ [t], update d.deadlinePosition t (some d.heap.length), cycles, result⟩ := by
  have hpos : d.deadlinePosition t = none := by
    by_contra hne
    exact ht ((h.mem_iff t).2 hne)
  intro x i
  have hx := h x i
  have hti := h t i
  rcases Nat.lt_trichotomy i d.heap.length with hi | rfl | hi
  · grind
  · grind
  · grind

variable {p : Pool} {t : Slot}

theorem deadlineInsert_spec (h : HeapShape p.deadlines) (hv : validThread p t)
    (hb : p.state t = .blocked) (ht : t ∉ p.deadlines.heap) {deadline : ℕ}
    (hd : deadline ≠ kernelThreadDeadlineNever) (result : ℕ) :
    ∃ d, deadlineInsert p t deadline result true = (.ok, { p with deadlines := d })
      ∧ HeapShape d ∧ d.heap.Perm (p.deadlines.heap ++ [t])
      ∧ d.deadlineCycles = update p.deadlines.deadlineCycles t deadline
      ∧ d.deadlineResult = update p.deadlines.deadlineResult t result := by
  have hpos : p.deadlines.deadlinePosition t = none := by
    by_contra hne
    exact ht ((h.mem_iff t).2 hne)
  obtain ⟨d, hdd⟩ : ∃ d : DeadlineHeap, d = {
      heap := p.deadlines.heap ++ [t]
      deadlinePosition := update p.deadlines.deadlinePosition t (some p.deadlines.heap.length)
      deadlineCycles := update p.deadlines.deadlineCycles t deadline
      deadlineResult := update p.deadlines.deadlineResult t result } := ⟨_, rfl⟩
  have hs : HeapShape d := hdd ▸ h.push ht _ _
  obtain ⟨h1, h2⟩ := hs.siftUp d.heap.length p.deadlines.heap.length
  refine ⟨_, ?_, h1, by rw [← show d.heap = p.deadlines.heap ++ [t] by rw [hdd]]; exact h2.perm,
    by rw [h2.cycles, hdd], by rw [h2.result, hdd]⟩
  unfold deadlineInsert
  rw [if_neg (by simp [hv, hb, hd, hpos]), if_neg (by simp), hdd]

structure Undeadlined (d d' : DeadlineHeap) (t : Slot) : Prop where
  shape : HeapShape d'
  mem : ∀ x, x ∈ d'.heap ↔ x ∈ d.heap ∧ x ≠ t
  cycles : ∀ x, x ≠ t → d'.deadlineCycles x = d.deadlineCycles x
  result : ∀ x, x ≠ t → d'.deadlineResult x = d.deadlineResult x

theorem Undeadlined.of_notMem {d : DeadlineHeap} (h : HeapShape d) (ht : t ∉ d.heap) :
    Undeadlined d d t :=
  ⟨h, fun _ => ⟨fun hx => ⟨hx, fun he => ht (he ▸ hx)⟩, And.left⟩, fun _ _ => rfl, fun _ _ => rfl⟩

theorem HeapShape.pop {d : DeadlineHeap} (h : HeapShape d) {heap : List Slot} {t : Slot}
    (ht : d.heap = heap ++ [t]) (cycles result : Slot → ℕ) :
    HeapShape ⟨heap, update d.deadlinePosition t none, cycles, result⟩ := by
  have hn := h.nodup
  rw [ht, nodup_append] at hn
  intro x i
  have hx := h x i
  rw [ht, List.getElem?_append] at hx
  simp only [update_apply]
  split_ifs with hxt
  · subst hxt
    simp only [false_iff]
    exact fun he => hn.2.2 x (mem_of_getElem? he) x (mem_singleton_self x) rfl
  · rw [hx]
    split_ifs with hi
    · rfl
    · rw [List.getElem?_eq_none (Nat.not_lt.1 hi), List.getElem?_singleton]
      split_ifs
      · simpa using Ne.symm hxt
      · rfl

theorem HeapShape.replace {d : DeadlineHeap} (h : HeapShape d) {heap : List Slot} {last t : Slot}
    {i : ℕ} (hl : d.heap = heap ++ [last]) (hi : d.heap[i]? = some t) (hne : i ≠ heap.length)
    (cycles result : Slot → ℕ) :
    HeapShape ⟨heap.set i last, update (update d.deadlinePosition t none) last (some i), cycles,
      result⟩ := by
  have hil : i < heap.length := by
    obtain ⟨hil, -⟩ := List.getElem?_eq_some_iff.1 hi
    rw [hl, length_append, length_singleton] at hil
    omega
  have hti : heap[i]? = some t := by rw [hl, List.getElem?_append_left hil] at hi; exact hi
  have hlast := (h last heap.length).2 (by rw [hl]; simp)
  have hpt := (h t i).2 hi
  intro x j
  have hx := h x j
  rw [hl, List.getElem?_append] at hx
  grind

theorem deadlineRemove_spec (h : HeapShape p.deadlines) (hv : validThread p t) :
    ∃ d, deadlineRemove p t = (.ok, { p with deadlines := d }) ∧ Undeadlined p.deadlines d t := by
  rcases hpos : p.deadlines.deadlinePosition t with _ | i
  · refine ⟨p.deadlines, ?_, .of_notMem h fun ht => (h.mem_iff t).1 ht hpos⟩
    simp [deadlineRemove, hv, hpos]
  have hi := (h t i).1 hpos
  have hn := h.nodup
  obtain ⟨heap, last, hheap⟩ : ∃ heap last, p.deadlines.heap = heap ++ [last] := by
    rcases eq_nil_or_concat p.deadlines.heap with he | ⟨l, a, he⟩
    · simp [he] at hi
    · exact ⟨l, a, by rw [he, concat_eq_append]⟩
  have hdrop : p.deadlines.heap.dropLast = heap := by rw [hheap, dropLast_concat]
  have hgl : p.deadlines.heap.getLast? = some last := by rw [hheap, List.getLast?_concat]
  rw [hheap, nodup_append] at hn
  have hc : ∀ x, x ≠ t → update p.deadlines.deadlineCycles t 0 x = p.deadlines.deadlineCycles x :=
    fun x hx => update_of_ne hx ..
  have hr : ∀ x, x ≠ t → update p.deadlines.deadlineResult t 0 x = p.deadlines.deadlineResult x :=
    fun x hx => update_of_ne hx ..
  unfold deadlineRemove
  rw [if_neg (by simp [hv]), hpos]
  simp only [hi, ne_eq, not_true, if_false, hdrop, hgl]
  by_cases hend : i = heap.length
  · obtain rfl : last = t := by simpa [hheap, hend] using hi
    rw [if_pos (.inr hend)]
    refine ⟨_, rfl, h.pop hheap _ _, fun x => ?_, hc, hr⟩
    simp only [hheap, mem_append, mem_singleton]
    have hlast : last ∉ heap := fun hm => hn.2.2 last hm last (mem_singleton_self _) rfl
    exact ⟨fun hx => ⟨.inl hx, fun he => hlast (he ▸ hx)⟩, fun ⟨hx, hne⟩ => hx.resolve_right hne⟩
  · have hil : i < heap.length := by
      obtain ⟨hil, -⟩ := List.getElem?_eq_some_iff.1 hi
      rw [hheap, length_append, length_singleton] at hil
      omega
    have hti : heap[i]? = some t := by rw [hheap, List.getElem?_append_left hil] at hi; exact hi
    rw [if_neg (by rintro (he | he) <;> omega)]
    obtain ⟨d, hd⟩ : ∃ d : DeadlineHeap, d = ⟨heap.set i last,
        update (update p.deadlines.deadlinePosition t none) last (some i),
        update p.deadlines.deadlineCycles t 0, update p.deadlines.deadlineResult t 0⟩ := ⟨_, rfl⟩
    have hs : HeapShape d := hd ▸ h.replace hheap hi hend _ _
    have hmem : ∀ x, x ∈ d.heap ↔ x ∈ p.deadlines.heap ∧ x ≠ t := by
      have hlt : last ≠ t := by
        rintro rfl
        exact hn.2.2 last (mem_of_getElem? hti) last (mem_singleton_self _) rfl
      have hlast := (h last heap.length).2 (by rw [hheap]; simp)
      intro x
      rw [hs.mem_iff, h.mem_iff, hd]
      simp only [update_apply]
      split_ifs with h1 h2
      · simp [h1, hlt, hlast]
      · simp [h2]
      · simp [h2]
    have hout : ∀ d', HeapShape d' ∧ Rearranged d d' → Undeadlined p.deadlines d' t := by
      rintro d' ⟨h1, h2⟩
      refine ⟨h1, fun x => ?_, fun x hx => ?_, fun x hx => ?_⟩
      · rw [h2.perm.mem_iff, hmem]
      · rw [h2.cycles, hd]
        exact hc x hx
      · rw [h2.result, hd]
        exact hr x hx
    rw [← hd]
    split_ifs
    · exact ⟨_, rfl, hout _ (hs.siftUp _ _)⟩
    · exact ⟨_, rfl, hout _ (hs.siftDown _ _)⟩

end Astra
