import AstraKernel.Proofs.SyncCounts
import AstraKernel.Proofs.DeadlineRuns

/-!
# The heap of timers

A heap of deadlines whose positions are the objects'. Unlike the threads', its children are at their
exact positions, so a sift down always comes to rest in order. It has the timers that are armed:
each is open and has not fired.
-/

namespace Astra

open Function List

/-- The timers' heap, as a heap of deadlines. -/
def SyncState.timers (s : SyncState) : DeadlineHeap where
  heap := s.timerHeap
  deadlinePosition n := (s.object n).timerPosition
  deadlineCycles n := (s.object n).deadline
  deadlineResult _ := 0

structure HeapStep (s s' : SyncState) : Prop where
  leaf : ∀ leaf, s.timerHeapDirectory leaf = true → s'.timerHeapDirectory leaf = true
  object : ∀ n, { s'.object n with
    timerPosition := (s.object n).timerPosition
    deadline := (s.object n).deadline } = s.object n

/-- What an open object has. -/
def OpenObject (o : KernelSyncObject) : Prop :=
  o.state = .live → o.type ≠ .none ∧ o.owner ≠ 0 ∧ o.generation ≠ 0 ∧ o.references ≠ 0 ∧
    o.closeResult = 0

/-- The heap is in order with exact positions, its leaves are there, and what it has are open timers
that have not fired. -/
structure TimerSound (s : SyncState) : Prop where
  shape : HeapShape s.timers
  order : HeapOrder s.timers
  armed : ∀ n ∈ s.timerHeap, (s.object n).state = .live ∧ (s.object n).type = .timer ∧
    (s.object n).count = 0
  leaf : ∀ i < s.timerHeap.length, s.timerHeapDirectory (i / timerHeapLeafEntries) = true
  opened : ∀ n, OpenObject (s.object n)

section

variable {s s' s₁ : SyncState} {n p : ℕ}

/-! ## The moves of the heap -/

theorem HeapStep.refl (s : SyncState) : HeapStep s s := ⟨fun _ => id, fun _ => rfl⟩

theorem HeapStep.trans (h : HeapStep s s₁) (h' : HeapStep s₁ s') : HeapStep s s' where
  leaf l hl := h'.leaf l (h.leaf l hl)
  object n := by
    have h1 := h.object n
    have h2 := h'.object n
    rw [← h2] at h1
    exact h1

theorem HeapStep.setObject {f : KernelSyncObject → KernelSyncObject}
    (hf : ∀ o, { f o with timerPosition := o.timerPosition, deadline := o.deadline } = o) :
    HeapStep s (s.setObject n f) where
  leaf _ := id
  object m := by
    rcases eq_or_ne m n with rfl | hm
    · simp [SyncState.setObject, hf]
    · simp [SyncState.setObject, update_of_ne hm]

theorem HeapStep.setHeap (heap : List ℕ) : HeapStep s { s with timerHeap := heap } :=
  ⟨fun _ => id, fun _ => rfl⟩

section

variable (h : HeapStep s s')
include h

theorem HeapStep.count (n : ℕ) : (s'.object n).count = (s.object n).count := by
  have := congrArg KernelSyncObject.count (h.object n)
  exact this

theorem HeapStep.state (n : ℕ) : (s'.object n).state = (s.object n).state := by
  have := congrArg KernelSyncObject.state (h.object n)
  exact this

theorem HeapStep.type (n : ℕ) : (s'.object n).type = (s.object n).type := by
  have := congrArg KernelSyncObject.type (h.object n)
  exact this

theorem HeapStep.references (n : ℕ) : (s'.object n).references = (s.object n).references := by
  have := congrArg KernelSyncObject.references (h.object n)
  exact this

theorem HeapStep.opened (ho : ∀ n, OpenObject (s.object n)) (n : ℕ) : OpenObject (s'.object n) := by
  have ho' := ho n
  rw [← h.object n] at ho'
  exact ho'

end

section

variable (s)

theorem timerLess_iff (left right : ℕ) :
    timerLess s left right ↔ deadlinePrecedes s.timers left right := by
  unfold timerLess deadlinePrecedes
  change _ ↔ if (s.object left).deadline ≠ (s.object right).deadline then
    (s.object left).deadline < (s.object right).deadline else left < right
  split_ifs with h
  · simp [h]
  · simp [not_not.1 h]

theorem timerLessAt_eq (left right : ℕ) :
    timerLessAt s left right = precedesAt s.timers left right := by
  have hheap : s.timers.heap = s.timerHeap := rfl
  unfold timerLessAt precedesAt
  rw [hheap]
  rcases s.timerHeap[left]? with _ | a
  · rfl
  rcases s.timerHeap[right]? with _ | b
  · rfl
  simp [timerLess_iff]

theorem timerHeapSwap_heapStep (left right : ℕ) : HeapStep s (timerHeapSwap s left right) := by
  unfold timerHeapSwap
  rcases s.timerHeap[left]? with _ | leftSlot
  · exact .refl s
  rcases s.timerHeap[right]? with _ | rightSlot
  · exact .refl s
  refine ((HeapStep.setHeap _).trans (.setObject ?_)).trans (.setObject ?_)
  · exact fun _ => rfl
  · exact fun _ => rfl

theorem timers_setObject (n : ℕ) (f : KernelSyncObject → KernelSyncObject) :
    (s.setObject n f).timers = { s.timers with
      deadlinePosition := update s.timers.deadlinePosition n (f (s.object n)).timerPosition
      deadlineCycles := update s.timers.deadlineCycles n (f (s.object n)).deadline } := by
  have hpos : ∀ m, ((s.setObject n f).object m).timerPosition =
      update s.timers.deadlinePosition n (f (s.object n)).timerPosition m :=
    apply_update (fun _ o => KernelSyncObject.timerPosition o) s.object n (f (s.object n))
  have hdeadline : ∀ m, ((s.setObject n f).object m).deadline =
      update s.timers.deadlineCycles n (f (s.object n)).deadline m :=
    apply_update (fun _ o => KernelSyncObject.deadline o) s.object n (f (s.object n))
  rw [← funext hpos, ← funext hdeadline]
  rfl

theorem timers_setPosition (n : ℕ) (position : Option ℕ) :
    (s.setObject n fun o => { o with timerPosition := position }).timers = { s.timers with
      deadlinePosition := update s.timers.deadlinePosition n position } := by
  have hself : update s.timers.deadlineCycles n (s.object n).deadline = s.timers.deadlineCycles :=
    update_eq_self n s.timers.deadlineCycles
  rw [timers_setObject, hself]

theorem timers_timerHeapSwap (left right : ℕ) :
    (timerHeapSwap s left right).timers = deadlineSwap s.timers left right := by
  have hheap : s.timers.heap = s.timerHeap := rfl
  unfold timerHeapSwap deadlineSwap
  rw [hheap]
  rcases s.timerHeap[left]? with _ | a
  · rfl
  rcases s.timerHeap[right]? with _ | b
  · rfl
  rw [timers_setPosition, timers_setPosition]
  rfl

end

theorem timerSiftUp_heapStep : ∀ (fuel : ℕ) (s : SyncState) (position : ℕ),
    HeapStep s (timerSiftUp fuel s position)
  | 0, s, _ => .refl s
  | fuel + 1, s, position => by
    unfold timerSiftUp
    dsimp only
    split_ifs
    · exact .refl s
    · exact .refl s
    · exact (timerHeapSwap_heapStep s _ _).trans (timerSiftUp_heapStep fuel _ _)

theorem timers_timerSiftUp : ∀ (fuel : ℕ) (s : SyncState) (position : ℕ),
    (timerSiftUp fuel s position).timers = deadlineSiftUp fuel s.timers position
  | 0, _, _ => rfl
  | fuel + 1, s, position => by
    unfold timerSiftUp deadlineSiftUp
    dsimp only
    rw [timerLessAt_eq]
    split_ifs
    · rfl
    · rfl
    · rw [timers_timerSiftUp fuel, timers_timerHeapSwap]

theorem timerSiftDown_succ (fuel : ℕ) (s : SyncState) (position : ℕ) :
    timerSiftDown (fuel + 1) s position =
      if siftNext s.timers position = position then s
      else timerSiftDown fuel (timerHeapSwap s position (siftNext s.timers position))
        (siftNext s.timers position) := by
  rw [timerSiftDown]
  simp only [timerLessAt_eq]
  rfl

theorem timerSiftDown_heapStep : ∀ (fuel : ℕ) (s : SyncState) (position : ℕ),
    HeapStep s (timerSiftDown fuel s position)
  | 0, s, _ => .refl s
  | fuel + 1, s, position => by
    rw [timerSiftDown_succ]
    split_ifs
    · exact .refl s
    · exact (timerHeapSwap_heapStep s _ _).trans (timerSiftDown_heapStep fuel _ _)

theorem timerSiftDown_sound : ∀ {fuel p : ℕ} {s : SyncState}, s.timerHeap.length ≤ fuel + p →
    p < s.timerHeap.length → HeapShape s.timers → Sinking s.timers.ranks s.timerHeap.length p →
    HeapShape (timerSiftDown fuel s p).timers ∧
      Rearranged s.timers (timerSiftDown fuel s p).timers ∧
      HeapOrder (timerSiftDown fuel s p).timers
  | 0, p, s, hle, hp, _, _ => by omega
  | fuel + 1, p, s, hle, hp, hshape, hsink => by
    rw [timerSiftDown_succ]
    rcases siftNext_spec (d := s.timers) (p := p) hp with
      ⟨hstop, hleast⟩ | ⟨hpar, hpos, hc, hlt, hleast⟩
    · rw [if_pos hstop]
      exact ⟨hshape, .refl _, hsink.done hleast⟩
    · rw [if_neg (by omega)]
      have hlen : (timerHeapSwap s p (siftNext s.timers p)).timerHeap.length =
          s.timerHeap.length := by
        change (timerHeapSwap s p (siftNext s.timers p)).timers.heap.length = s.timers.heap.length
        rw [timers_timerHeapSwap, length_deadlineSwap]
      obtain ⟨hshape', hre⟩ := hshape.swap p (siftNext s.timers p)
      rw [← timers_timerHeapSwap] at hshape' hre
      have hsink' := hsink.swap hpar hpos hc hlt hleast
      rw [← ranks_deadlineSwap hp hc, ← timers_timerHeapSwap] at hsink'
      obtain ⟨h1, h2, h3⟩ := @timerSiftDown_sound fuel (siftNext s.timers p)
        (timerHeapSwap s p (siftNext s.timers p)) (by omega)
        (hlen.symm ▸ hc) hshape' (by rw [hlen]; exact hsink')
      exact ⟨h1, hre.trans h2, h3⟩

structure TakenOff (s s' : SyncState) (n : ℕ) : Prop where
  step : HeapStep s s'
  taken : Undeadlined s.timers s'.timers n
  order : HeapOrder s'.timers
  same : n ∉ s.timerHeap → s' = s

structure PutIn (s s' : SyncState) (n deadline : ℕ) : Prop where
  step : HeapStep s s'
  shape : HeapShape s'.timers
  order : HeapOrder s'.timers
  perm : s'.timerHeap.Perm (s.timerHeap ++ [n])
  cycles : s'.timers.deadlineCycles = update s.timers.deadlineCycles n deadline
  leaf : s'.timerHeapDirectory (s.timerHeap.length / timerHeapLeafEntries) = true

theorem set_set_dropLast {l : List ℕ} (hp : p + 1 < l.length) (last n : ℕ) :
    ((l.set p last).set (l.length - 1) n).dropLast = l.dropLast.set p last := by
  refine ext_getElem? fun i => ?_
  simp only [List.getElem?_dropLast, List.getElem?_set, length_set, length_dropLast]
  split_ifs <;> first | rfl | omega

section

variable (h : TimerSound s)
include h

theorem timerRemove_sifts {last : ℕ} (hat : s.timerHeap[p]? = some n)
    (hlast : s.timerHeap.getLast? = some last) (hin : p + 1 < s.timerHeap.length)
    (hs : s₁.timers = s.timers.takeOut n p last) (hstep : HeapStep s s₁) :
    TakenOff s (if p ≠ 0 ∧ timerLessAt s₁ p ((p - 1) / 2) = true then
      timerSiftUp s₁.timerHeap.length s₁ p else timerSiftDown s₁.timerHeap.length s₁ p) n := by
  have hlen : s₁.timerHeap.length = s.timerHeap.length - 1 := by
    change s₁.timers.heap.length = _
    rw [hs]
    simp [DeadlineHeap.takeOut, SyncState.timers]
  have htaken : Undeadlined s.timers s₁.timers n := by
    rw [hs]
    exact h.shape.takeOut hlast hat hin
  have hmoves := @takeOut_order n s.timers p last h.shape h.order hat hin
  rw [← hs] at hmoves
  have hsame : ∀ {s' : SyncState}, n ∉ s.timerHeap → s' = s := fun hn =>
    absurd (mem_of_getElem? hat) hn
  split_ifs with hup
  · rw [timerLessAt_eq] at hup
    obtain ⟨hshape, hre⟩ := htaken.shape.siftUp s₁.timerHeap.length p
    have horder : HeapOrder (deadlineSiftUp s₁.timerHeap.length s₁.timers p) :=
      siftUp_order (d := s₁.timers) (by omega) (by change p < s₁.timerHeap.length; omega)
        (hmoves.1 hup)
    rw [← timers_timerSiftUp] at hshape hre horder
    exact ⟨hstep.trans (timerSiftUp_heapStep _ _ _), htaken.rearranged hshape hre, horder, hsame⟩
  · rw [timerLessAt_eq] at hup
    obtain ⟨hshape, hre, horder⟩ := @timerSiftDown_sound s₁.timerHeap.length _ _ (by omega)
      (by omega) htaken.shape (hmoves.2 hup)
    exact ⟨hstep.trans (timerSiftDown_heapStep _ _ _), htaken.rearranged hshape hre, horder, hsame⟩

theorem timerRemove_sound (hv : validObjectPointer s n) :
    ∃ s', timerRemove s n = (true, s') ∧ TakenOff s s' n := by
  unfold timerRemove
  rw [if_neg (not_not.2 hv)]
  rcases hpos : (s.object n).timerPosition with _ | position
  · have hn : n ∉ s.timerHeap := fun hm => (h.shape.mem_iff n).1 hm hpos
    exact ⟨s, rfl, .refl s, .of_notMem h.shape hn, h.order, fun _ => rfl⟩
  have hat : s.timerHeap[position]? = some n := (h.shape n position).1 hpos
  obtain ⟨hlt, -⟩ := List.getElem?_eq_some_iff.1 hat
  obtain ⟨last, hlast⟩ : ∃ last, s.timerHeap.getLast? = some last := by
    rcases hl : s.timerHeap.getLast? with _ | last
    · rw [List.getLast?_eq_none_iff] at hl
      simp [hl] at hlt
    · exact ⟨last, rfl⟩
  have hend : s.timerHeap[s.timerHeap.length - 1]? = some last := by
    rw [← List.getLast?_eq_getElem?, hlast]
  have hresult : ∀ m, update s.timers.deadlineResult m 0 = s.timers.deadlineResult := fun m =>
    update_eq_self m s.timers.deadlineResult
  dsimp only
  rw [if_neg (by rw [not_or, not_le, not_not]; exact ⟨hlt, hat⟩)]
  by_cases hp : position = s.timerHeap.length - 1
  · -- the last timer of the heap itself
    obtain rfl : last = n := Option.some.inj (hend.symm.trans (hp ▸ hat))
    rw [if_neg (not_not.2 hp), if_neg (by simp [SyncState.setObject]; omega)]
    have hs : (SyncState.setObject { s with timerHeap := s.timerHeap.dropLast } last fun o =>
        { o with timerPosition := none, deadline := 0 }).timers =
        ⟨s.timers.heap.dropLast, update s.timers.deadlinePosition last none,
          update s.timers.deadlineCycles last 0, update s.timers.deadlineResult last 0⟩ := by
      rw [timers_setObject, hresult]
      rfl
    refine ⟨_, rfl, (HeapStep.setHeap _).trans (.setObject fun _ => rfl), ?_, ?_, fun hn =>
      absurd (mem_of_getElem? hat) hn⟩
    · rw [hs]
      exact h.shape.takeEnd hlast
    · rw [hs]
      exact takeEnd_order h.shape h.order hend
  · rw [if_pos hp]
    have hin : position + 1 < s.timerHeap.length := by omega
    obtain ⟨s₁, hs₁⟩ : ∃ s₁, s₁ = SyncState.setObject { timerHeapSwap s position
        (s.timerHeap.length - 1) with timerHeap := (timerHeapSwap s position
        (s.timerHeap.length - 1)).timerHeap.dropLast } n fun o =>
        { o with timerPosition := none, deadline := 0 } := ⟨_, rfl⟩
    have hstep : HeapStep s s₁ := by
      rw [hs₁]
      exact ((timerHeapSwap_heapStep s _ _).trans (.setHeap _)).trans (.setObject fun _ => rfl)
    have hne : last ≠ n := by
      rintro rfl
      have h1 := (h.shape last position).2 hat
      have h2 := (h.shape last _).2 hend
      exact hp (Option.some.inj (h1.symm.trans h2))
    have hs : s₁.timers = s.timers.takeOut n position last := by
      have hswap := timers_timerHeapSwap s position (s.timerHeap.length - 1)
      unfold deadlineSwap at hswap
      rw [show s.timers.heap[position]? = some n from hat,
        show s.timers.heap[s.timerHeap.length - 1]? = some last from hend] at hswap
      have hview : SyncState.timers { timerHeapSwap s position (s.timerHeap.length - 1) with
          timerHeap := (timerHeapSwap s position (s.timerHeap.length - 1)).timerHeap.dropLast } =
          { (timerHeapSwap s position (s.timerHeap.length - 1)).timers with
            heap := (timerHeapSwap s position
              (s.timerHeap.length - 1)).timers.heap.dropLast } := rfl
      have hheap : ((s.timers.heap.set position last).set (s.timerHeap.length - 1) n).dropLast =
          s.timers.heap.dropLast.set position last := set_set_dropLast hin last n
      rw [hs₁, timers_setObject, hview, hswap]
      rw [hheap, update_comm hne, update_idem]
      unfold DeadlineHeap.takeOut
      rw [hresult]
    have hlen : s₁.timerHeap.length = s.timerHeap.length - 1 := by
      change s₁.timers.heap.length = _
      rw [hs]
      simp [DeadlineHeap.takeOut, SyncState.timers]
    have htaken := timerRemove_sifts h hat hlast hin hs hstep
    rw [← hs₁, if_pos (by omega)]
    split_ifs at htaken ⊢ with hup
    · exact ⟨_, rfl, htaken⟩
    · exact ⟨_, rfl, htaken⟩

theorem timerInsert_sound (hv : validObjectPointer s n)
    (hn : n ∉ s.timerHeap) (hroom : s.timerHeap.length < kernelSyncObjectMax) (deadline : ℕ)
    (memory : Bool) :
    (s.timerHeapDirectory (s.timerHeap.length / timerHeapLeafEntries) = false ∧ memory = false ∧
      timerInsert s n deadline memory = (.noSlot, s)) ∨
    ∃ s', timerInsert s n deadline memory = (.ok, s') ∧ PutIn s s' n deadline ∧
      ¬(s.timerHeapDirectory (s.timerHeap.length / timerHeapLeafEntries) = false ∧
        memory = false) := by
  have hpos : (s.object n).timerPosition = none := by
    by_contra hne
    exact hn ((h.shape.mem_iff n).2 hne)
  unfold timerInsert
  dsimp only
  rw [if_neg (by rw [not_or, not_or, not_not, not_not, not_le]; exact ⟨hv, hpos, hroom⟩)]
  by_cases hm : s.timerHeapDirectory (s.timerHeap.length / timerHeapLeafEntries) = false ∧
      memory = false
  · exact .inl ⟨hm.1, hm.2, if_pos hm⟩
  rw [if_neg hm]
  obtain ⟨s₁, hs₁⟩ : ∃ s₁, s₁ = SyncState.setObject { s with
      timerHeapDirectory :=
        update s.timerHeapDirectory (s.timerHeap.length / timerHeapLeafEntries) true
      timerHeap := s.timerHeap ++ [n] } n fun o => { o with
      timerPosition := some s.timerHeap.length
      deadline := deadline } := ⟨_, rfl⟩
  rw [← hs₁]
  have hstep : HeapStep s s₁ := by
    rw [hs₁]
    have hpush : HeapStep s { s with
        timerHeapDirectory :=
          update s.timerHeapDirectory (s.timerHeap.length / timerHeapLeafEntries) true
        timerHeap := s.timerHeap ++ [n] } := by
      refine ⟨fun l hl => ?_, fun _ => rfl⟩
      simp only [update_apply, hl]
      split_ifs <;> rfl
    exact hpush.trans (.setObject fun _ => rfl)
  have hview : s₁.timers = ⟨s.timerHeap ++ [n],
      update s.timers.deadlinePosition n (some s.timerHeap.length),
      update s.timers.deadlineCycles n deadline, s.timers.deadlineResult⟩ := by
    rw [hs₁, timers_setObject]
    rfl
  have hlen : s₁.timerHeap.length = s.timerHeap.length + 1 := by
    change s₁.timers.heap.length = _
    rw [hview]
    simp
  have hshape : HeapShape s₁.timers := by
    rw [hview]
    exact h.shape.push hn _ _
  obtain ⟨hshape', hre⟩ := hshape.siftUp s₁.timerHeap.length s.timerHeap.length
  have horder : HeapOrder (deadlineSiftUp s₁.timerHeap.length s₁.timers s.timerHeap.length) := by
    refine siftUp_order (by omega) (by change _ < s₁.timerHeap.length; omega) ?_
    change Rising _ s₁.timerHeap.length _
    rw [hlen]
    refine IsHeap.append h.order fun i hi => ?_
    have hx : s.timers.heap[i]? = some s.timers.heap[i] := List.getElem?_eq_getElem hi
    have hne : s.timers.heap[i] ≠ n := fun he => hn (mem_of_getElem? (he ▸ hx))
    refine ranks_congr hx ?_ ?_
    · rw [hview]
      exact (List.getElem?_append_left hi).trans hx
    · rw [hview]
      exact update_of_ne hne _ _
  have hleaf : s₁.timerHeapDirectory (s.timerHeap.length / timerHeapLeafEntries) = true := by
    rw [hs₁]
    exact update_self ..
  rw [← timers_timerSiftUp] at hshape' hre horder
  have hmove := timerSiftUp_heapStep s₁.timerHeap.length s₁ s.timerHeap.length
  refine .inr ⟨_, rfl, ⟨hstep.trans hmove, hshape', horder, ?_, ?_, hmove.leaf _ hleaf⟩, hm⟩
  · have hperm := hre.perm
    rw [hview] at hperm
    exact hperm
  · rw [hre.cycles, hview]

/-! ## What keeps the heap sound -/

theorem TimerSound.position_none (hn : n ∉ s.timerHeap) : (s.object n).timerPosition = none := by
  by_contra hne
  exact hn ((h.shape.mem_iff n).2 hne)

theorem TimerSound.notMem (hn : (s.object n).state ≠ .live ∨
    (s.object n).type ≠ .timer ∨ (s.object n).count ≠ 0) : n ∉ s.timerHeap := fun hm => by
  obtain ⟨hl, ht, hc⟩ := h.armed n hm
  simp [hl, ht, hc] at hn

end

theorem TakenOff.notMem (h : TakenOff s s' n) : n ∉ s'.timerHeap := fun hm =>
  ((h.taken.mem n).1 hm).2 rfl

theorem TakenOff.sound (ht : TakenOff s s' n) (h : TimerSound s) : TimerSound s' where
  shape := ht.taken.shape
  order := ht.order
  armed m hm := by
    rw [ht.step.state, ht.step.type, ht.step.count]
    exact h.armed m ((ht.taken.mem m).1 hm).1
  leaf i hi := by
    have hle : s'.timerHeap.length ≤ s.timerHeap.length := ht.taken.length_le
    exact ht.step.leaf _ (h.leaf i (by omega))
  opened := ht.step.opened h.opened

theorem PutIn.sound {deadline : ℕ} (hp : PutIn s s' n deadline) (h : TimerSound s)
    (hl : (s.object n).state = .live) (ht : (s.object n).type = .timer)
    (hc : (s.object n).count = 0) : TimerSound s' where
  shape := hp.shape
  order := hp.order
  armed m hm := by
    rw [hp.step.state, hp.step.type, hp.step.count]
    rcases mem_append.1 (hp.perm.mem_iff.1 hm) with hm | hm
    · exact h.armed m hm
    · obtain rfl := mem_singleton.1 hm
      exact ⟨hl, ht, hc⟩
  leaf i hi := by
    have hlen : s'.timerHeap.length = s.timerHeap.length + 1 := by
      rw [hp.perm.length_eq, length_append, length_singleton]
    rcases Nat.lt_or_ge i s.timerHeap.length with hlt | hge
    · exact hp.step.leaf _ (h.leaf i hlt)
    · obtain rfl : i = s.timerHeap.length := by omega
      exact hp.leaf
  opened := hp.step.opened h.opened

section

variable (h : TimerSound s)
include h

theorem TimerSound.change (hheap : s'.timerHeap = s.timerHeap)
    (hleaf : ∀ i < s.timerHeap.length, s'.timerHeapDirectory (i / timerHeapLeafEntries) = true)
    (hopened : ∀ n, OpenObject (s'.object n))
    (hposition : ∀ n, (s'.object n).timerPosition = (s.object n).timerPosition)
    (harmed : ∀ n ∈ s.timerHeap, (s'.object n).state = (s.object n).state ∧
      (s'.object n).type = (s.object n).type ∧ (s'.object n).count = (s.object n).count ∧
      (s'.object n).deadline = (s.object n).deadline) : TimerSound s' where
  shape := by
    intro n i
    change (s'.object n).timerPosition = some i ↔ s'.timerHeap[i]? = some n
    rw [hposition, hheap]
    exact h.shape n i
  order := by
    change IsHeap s'.timers.ranks s'.timerHeap.length
    rw [hheap]
    refine h.order.congr fun i hi => ?_
    have hx : s.timers.heap[i]? = some s.timers.heap[i] := List.getElem?_eq_getElem hi
    refine ranks_congr hx ?_ (harmed _ (getElem_mem hi)).2.2.2
    change s'.timerHeap[i]? = _
    rw [hheap]
    exact hx
  armed n hn := by
    rw [hheap] at hn
    obtain ⟨h1, h2, h3, -⟩ := harmed n hn
    rw [h1, h2, h3]
    exact h.armed n hn
  leaf i hi := hleaf i (hheap ▸ hi)
  opened := hopened

theorem TimerSound.withPool (p : Pool) : TimerSound (s.withPool p) :=
  h.change rfl h.leaf h.opened (fun _ => rfl) fun _ _ => ⟨rfl, rfl, rfl, rfl⟩

theorem TimerSound.setObject {f : KernelSyncObject → KernelSyncObject}
    (hopened : OpenObject (f (s.object n)))
    (hposition : (f (s.object n)).timerPosition = (s.object n).timerPosition)
    (harmed : n ∈ s.timerHeap → (f (s.object n)).state = (s.object n).state ∧
      (f (s.object n)).type = (s.object n).type ∧ (f (s.object n)).count = (s.object n).count ∧
      (f (s.object n)).deadline = (s.object n).deadline) : TimerSound (s.setObject n f) := by
  have hself : (s.setObject n f).object n = f (s.object n) := update_self ..
  have hother : ∀ m, m ≠ n → (s.setObject n f).object m = s.object m :=
    fun m hm => update_of_ne hm _ _
  refine h.change rfl h.leaf (fun m => ?_) (fun m => ?_) fun m hm => ?_
  · rcases eq_or_ne m n with rfl | hne
    · exact hself ▸ hopened
    · exact hother m hne ▸ h.opened m
  · rcases eq_or_ne m n with rfl | hne
    · exact hself ▸ hposition
    · rw [hother m hne]
  · rcases eq_or_ne m n with rfl | hne
    · exact hself ▸ harmed hm
    · rw [hother m hne]
      exact ⟨rfl, rfl, rfl, rfl⟩

theorem TimerSound.room (hs : SyncSound s) (hv : n < kernelSyncObjectMax)
    (hn : n ∉ s.timerHeap) : s.timerHeap.length < kernelSyncObjectMax := by
  have hnodup : (n :: s.timerHeap).Nodup := nodup_cons.2 ⟨hn, h.shape.nodup⟩
  have hsub : n :: s.timerHeap ⊆ List.range kernelSyncObjectMax := fun m hm => by
    rw [mem_range]
    rcases mem_cons.1 hm with rfl | hm
    · exact hv
    · exact (hs.backed m (by simp [(h.armed m hm).1])).1
  have hle := (hnodup.subperm hsub).length_le
  rw [length_range] at hle
  exact hle

theorem TimerSound.valid (hs : SyncSound s) (hl : (s.object n).state = .live)
    (ht : (s.object n).type = .timer) : validLiveObject s n := by
  obtain ⟨h1, h2, h3, h4, h5⟩ := h.opened n hl
  have hmax : (s.object n).maximum = 1 := hs.unit n (by simp [hl]) (by simp [ht])
  have hcount := hs.count n
  refine ⟨hs.backed n (by simp [hl]), hl, h1, h2, h3, h4, h5, hs.healthy.waitQueueCount_ne_max _, ?_⟩
  rw [if_neg (by simp [ht])]
  omega

end

end

end Astra
