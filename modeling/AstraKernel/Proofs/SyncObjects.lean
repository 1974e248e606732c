import AstraKernel.Sync.Step
import AstraKernel.Proofs.Waiters

/-!
# The objects between two calls

An object that is signalled has no waiter, nor has one that is closed or free. A call takes units
from an object's count or adds to it, and what it adds is what was released less what was served.
-/

namespace Astra

open Finset Function

/-- What the rest of the kernel keeps to: its own calls of the pool are sane and foreign, and what
it has a thread wait on beside the objects are its own queues. -/
def SyncSane (s : SyncState) : SyncEvent → Prop
  | .thread op => Sane s.pool op ∧ op.foreign
  | .waitSet _ members _ _ _ _ _ => ∀ spec, .pending spec ∈ members →
    outerQueue s.pool spec.queue ∧ ∀ q ∈ spec.queue, foreignQueue q
  | _ => True

def busyObjects (s : SyncState) : Finset ℕ :=
  (Finset.range kernelSyncObjectMax).filter fun n => (s.object n).state ≠ .free

structure SyncSound (s : SyncState) : Prop where
  healthy : Healthy s.pool
  backed : ∀ n, (s.object n).state ≠ .free → validObjectPointer s n
  active : s.activeObjectCount = (busyObjects s).card
  next : s.nextObjectSlot < kernelSyncObjectMax
  count : ∀ n, (s.object n).count ≤ (s.object n).maximum
  unit : ∀ n, (s.object n).state ≠ .free → (s.object n).type ≠ .semaphore →
    (s.object n).maximum = 1
  unserved : ∀ n < kernelSyncObjectMax, ∀ t, Waits s.pool t (syncQueue n) →
    (s.object n).state = .live ∧ (s.object n).count = 0

/-- An object from one state to a later one: `released` units were put into it, and `served` ones
were taken by waits. -/
structure Account (o o' : KernelSyncObject) (released served : ℕ) : Prop where
  free : o.state = .free → o'.state = .free
  type : o'.state ≠ .free → o'.type = o.type
  maximum : o'.state ≠ .free → o'.maximum = o.maximum
  semaphore : o'.state ≠ .free → o.type = .semaphore → o'.count + served = o.count + released
  eventAuto : o'.state ≠ .free → o.type = .eventAuto → o'.count + served ≤ o.count + released

structure SyncMoves (s s' : SyncState) (released served : ℕ → ℕ) : Prop where
  sound : SyncSound s'
  account : ∀ n, Account (s.object n) (s'.object n) (released n) (served n)

def SyncQuiet (s s' : SyncState) : Prop :=
  SyncMoves s s' (fun _ => 0) fun _ => 0

structure SameObject (o o' : KernelSyncObject) : Prop where
  type : o'.type = o.type
  state : o'.state = o.state
  count : o'.count = o.count
  maximum : o'.maximum = o.maximum
  owner : o'.owner = o.owner

structure TimerStep (s s' : SyncState) : Prop where
  pool : s'.pool = s.pool
  directory : s'.objectDirectory = s.objectDirectory
  active : s'.activeObjectCount = s.activeObjectCount
  next : s'.nextObjectSlot = s.nextObjectSlot
  object : ∀ n, SameObject (s.object n) (s'.object n)

section

variable {s s' s₁ : SyncState} {n : ℕ} {p : Pool} {o : KernelSyncObject}

theorem Account.refl (o : KernelSyncObject) : Account o o 0 0 :=
  ⟨id, fun _ => rfl, fun _ => rfl, fun _ _ => rfl, fun _ _ => le_rfl⟩

theorem Account.trans {o o₁ o₂ : KernelSyncObject} {r v r' v' : ℕ} (h : Account o o₁ r v)
    (h' : Account o₁ o₂ r' v') : Account o o₂ (r + r') (v + v') := by
  have hf : o₂.state ≠ .free → o₁.state ≠ .free := fun h1 h2 => h1 (h'.free h2)
  refine ⟨fun h1 => h'.free (h.free h1), fun h1 => (h'.type h1).trans (h.type (hf h1)),
    fun h1 => (h'.maximum h1).trans (h.maximum (hf h1)), fun h1 h2 => ?_, fun h1 h2 => ?_⟩
  · have e1 := h.semaphore (hf h1) h2
    have e2 := h'.semaphore h1 ((h.type (hf h1)).trans h2)
    omega
  · have e1 := h.eventAuto (hf h1) h2
    have e2 := h'.eventAuto h1 ((h.type (hf h1)).trans h2)
    omega

theorem SameObject.account {o o' : KernelSyncObject} (h : SameObject o o') : Account o o' 0 0 :=
  ⟨fun h1 => h.state.trans h1, fun _ => h.type, fun _ => h.maximum, fun _ _ => by rw [h.count],
    fun _ _ => by rw [h.count]⟩

theorem SameObject.refl (o : KernelSyncObject) : SameObject o o := ⟨rfl, rfl, rfl, rfl, rfl⟩

theorem SameObject.trans {o o₁ o₂ : KernelSyncObject} (h : SameObject o o₁)
    (h' : SameObject o₁ o₂) : SameObject o o₂ :=
  ⟨h'.type.trans h.type, h'.state.trans h.state, h'.count.trans h.count,
    h'.maximum.trans h.maximum, h'.owner.trans h.owner⟩

theorem SyncMoves.trans {r v r' v' : ℕ → ℕ} (h : SyncMoves s s₁ r v) (h' : SyncMoves s₁ s' r' v') :
    SyncMoves s s' (fun n => r n + r' n) fun n => v n + v' n :=
  ⟨h'.sound, fun n => (h.account n).trans (h'.account n)⟩

theorem SyncQuiet.refl (h : SyncSound s) : SyncQuiet s s :=
  ⟨h, fun _ => .refl _⟩

theorem SyncQuiet.trans (h : SyncQuiet s s₁) (h' : SyncQuiet s₁ s') : SyncQuiet s s' :=
  SyncMoves.trans h h'

theorem syncQueue_inj {m : ℕ} : syncQueue m = syncQueue n ↔ m = n := by
  simp [syncQueue]

theorem busyObjects_congr (h : ∀ m, (s'.object m).state = .free ↔ (s.object m).state = .free) :
    busyObjects s' = busyObjects s :=
  filter_congr fun m _ => not_congr (h m)

theorem SyncSound.change (h : SyncSound s) (hp : Healthy p) {o : KernelSyncObject}
    (hfree : o.state = .free ↔ (s.object n).state = .free) (hcount : o.count ≤ o.maximum)
    (hunit : o.state ≠ .free → o.type ≠ .semaphore → o.maximum = 1)
    (hn : ∀ t, Waits p t (syncQueue n) → o.state = .live ∧ o.count = 0)
    (hw : ∀ m < kernelSyncObjectMax, m ≠ n → ∀ t, Waits p t (syncQueue m) →
      Waits s.pool t (syncQueue m)) :
    SyncSound { s with pool := p, object := update s.object n o } := by
  have hstate : ∀ m, (update s.object n o m).state = .free ↔ (s.object m).state = .free := by
    intro m
    rcases eq_or_ne m n with rfl | hm
    · simpa using hfree
    · rw [update_of_ne hm]
  refine ⟨hp, fun m hm => ?_, ?_, h.next, fun m => ?_, fun m => ?_, fun m hlt t ht => ?_⟩
  · exact h.backed m fun h1 => hm ((hstate m).2 h1)
  · exact h.active.trans (congrArg Finset.card (busyObjects_congr hstate)).symm
  · rcases eq_or_ne m n with rfl | hm
    · simpa using hcount
    · simpa [update_of_ne hm] using h.count m
  · rcases eq_or_ne m n with rfl | hm
    · simpa using hunit
    · simpa [update_of_ne hm] using h.unit m
  · rcases eq_or_ne m n with rfl | hm
    · simpa using hn t ht
    · simpa [update_of_ne hm] using h.unserved m hlt t (hw m hlt hm t ht)

theorem SyncMoves.of_change (hs : SyncSound { s with pool := p, object := update s.object n o })
    {r v : ℕ} (ha : Account (s.object n) o r v) :
    SyncMoves s { s with pool := p, object := update s.object n o }
      (fun m => if m = n then r else 0) fun m => if m = n then v else 0 := by
  refine ⟨hs, fun m => ?_⟩
  rcases eq_or_ne m n with rfl | hm
  · simpa using ha
  · simpa [hm, update_of_ne hm] using Account.refl (s.object m)

theorem SyncQuiet.of_change {o : KernelSyncObject}
    (hs : SyncSound { s with pool := p, object := update s.object n o })
    (ha : Account (s.object n) o 0 0) :
    SyncQuiet s { s with pool := p, object := update s.object n o } := by
  have := SyncMoves.of_change hs ha
  simpa [SyncQuiet] using this

theorem SyncSound.withPool (h : SyncSound s) (hp : Healthy p)
    (hw : ∀ n < kernelSyncObjectMax, ∀ t, Waits p t (syncQueue n) → Waits s.pool t (syncQueue n)) :
    SyncQuiet s (s.withPool p) :=
  ⟨{ h with
      healthy := hp
      unserved := fun n hn t ht => h.unserved n hn t (hw n hn t ht) }, fun _ => .refl _⟩

theorem TimerStep.refl (s : SyncState) : TimerStep s s :=
  ⟨rfl, rfl, rfl, rfl, fun _ => .refl _⟩

theorem TimerStep.trans (h : TimerStep s s₁) (h' : TimerStep s₁ s') : TimerStep s s' :=
  ⟨h'.pool.trans h.pool, h'.directory.trans h.directory, h'.active.trans h.active,
    h'.next.trans h.next, fun n => (h.object n).trans (h'.object n)⟩

theorem TimerStep.quiet (ht : TimerStep s s') (h : SyncSound s) : SyncQuiet s s' := by
  refine ⟨⟨ht.pool ▸ h.healthy, fun n hn => ?_, ?_, ht.next ▸ h.next, fun n => ?_, fun n => ?_,
    fun n hlt t hw => ?_⟩, fun n => (ht.object n).account⟩
  · rw [(ht.object n).state] at hn
    have := h.backed n hn
    rwa [validObjectPointer, ht.directory]
  · have hbusy : busyObjects s' = busyObjects s :=
      busyObjects_congr fun m => by rw [(ht.object m).state]
    rw [ht.active, h.active, hbusy]
  · rw [(ht.object n).count, (ht.object n).maximum]
    exact h.count n
  · rw [(ht.object n).state, (ht.object n).type, (ht.object n).maximum]
    exact h.unit n
  · rw [ht.pool] at hw
    rw [(ht.object n).state, (ht.object n).count]
    exact h.unserved n hlt t hw

variable {f : KernelSyncObject → KernelSyncObject}

theorem TimerStep.setObject
    (hf : SameObject (s.object n) (f (s.object n))) : TimerStep s (s.setObject n f) := by
  refine ⟨rfl, rfl, rfl, rfl, fun m => ?_⟩
  rcases eq_or_ne m n with rfl | hm
  · simpa [SyncState.setObject] using hf
  · simpa [SyncState.setObject, update_of_ne hm] using SameObject.refl (s.object m)

theorem TimerStep.setHeap (heap : List ℕ) : TimerStep s { s with timerHeap := heap } :=
  ⟨rfl, rfl, rfl, rfl, fun _ => .refl _⟩

theorem timerHeapSwap_step (s : SyncState) (left right : ℕ) :
    TimerStep s (timerHeapSwap s left right) := by
  unfold timerHeapSwap
  rcases s.timerHeap[left]? with _ | leftSlot
  · exact .refl s
  rcases s.timerHeap[right]? with _ | rightSlot
  · exact .refl s
  exact ((TimerStep.setHeap _).trans (.setObject ⟨rfl, rfl, rfl, rfl, rfl⟩)).trans
    (.setObject ⟨rfl, rfl, rfl, rfl, rfl⟩)

theorem timerSiftUp_step : ∀ (fuel : ℕ) (s : SyncState) (position : ℕ),
    TimerStep s (timerSiftUp fuel s position)
  | 0, s, _ => .refl s
  | fuel + 1, s, position => by
    unfold timerSiftUp
    dsimp only
    split_ifs
    · exact .refl s
    · exact .refl s
    · exact (timerHeapSwap_step s _ _).trans (timerSiftUp_step fuel _ _)

theorem timerSiftDown_step : ∀ (fuel : ℕ) (s : SyncState) (position : ℕ),
    TimerStep s (timerSiftDown fuel s position)
  | 0, s, _ => .refl s
  | fuel + 1, s, position => by
    unfold timerSiftDown
    by_cases hstop : (if position * 2 + 1 + 1 < s.timerHeap.length ∧
        timerLessAt s (position * 2 + 1 + 1)
          (if position * 2 + 1 < s.timerHeap.length ∧ timerLessAt s (position * 2 + 1) position
            then position * 2 + 1 else position) then position * 2 + 1 + 1
        else if position * 2 + 1 < s.timerHeap.length ∧ timerLessAt s (position * 2 + 1) position
          then position * 2 + 1 else position) = position
    · rw [if_pos hstop]
      exact .refl s
    · rw [if_neg hstop]
      exact (timerHeapSwap_step s _ _).trans (timerSiftDown_step fuel _ _)

theorem timerRemove_finish (s : SyncState) (position : ℕ) (up : Prop) [Decidable up] {b : Bool}
    (h : TimerStep s s₁) :
    TimerStep s (if position < s₁.timerHeap.length then
      if up then (b, timerSiftUp s₁.timerHeap.length s₁ position)
      else (b, timerSiftDown s₁.timerHeap.length s₁ position)
    else (b, s₁)).2 := by
  split_ifs
  · exact h.trans (timerSiftUp_step _ _ _)
  · exact h.trans (timerSiftDown_step _ _ _)
  · exact h

theorem timerRemove_step (s : SyncState) (n : ℕ) : TimerStep s (timerRemove s n).2 := by
  unfold timerRemove
  split
  · exact .refl s
  rcases hp : (s.object n).timerPosition with _ | position
  · exact .refl s
  dsimp only
  split
  · exact .refl s
  have hswap : TimerStep s (if position ≠ s.timerHeap.length - 1
      then timerHeapSwap s position (s.timerHeap.length - 1) else s) := by
    split_ifs
    · exact timerHeapSwap_step s _ _
    · exact .refl s
  exact timerRemove_finish s position _
    ((hswap.trans (.setHeap _)).trans (.setObject ⟨rfl, rfl, rfl, rfl, rfl⟩))

theorem timerInsert_step (s : SyncState) (n deadline : ℕ) (memory : Bool) :
    TimerStep s (timerInsert s n deadline memory).2 := by
  unfold timerInsert
  dsimp only
  split_ifs
  · exact .refl s
  · exact .refl s
  · have hpush : TimerStep s { s with
        timerHeapDirectory :=
          update s.timerHeapDirectory (s.timerHeap.length / timerHeapLeafEntries) true
        timerHeap := s.timerHeap ++ [n] } := ⟨rfl, rfl, rfl, rfl, fun _ => .refl _⟩
    exact (hpush.trans (.setObject ⟨rfl, rfl, rfl, rfl, rfl⟩)).trans (timerSiftUp_step _ _ _)

theorem SyncQuiet.corrupted (h : SyncSound s) : SyncQuiet s s.corrupted :=
  ⟨{ h with }, fun _ => .refl _⟩

theorem addLeaf_quiet (h : SyncSound s) {leafIndex : ℕ}
    (hl : s.objectDirectory leafIndex = false) : SyncQuiet s (s.addLeaf leafIndex) ∧
      ∀ m, ((s.addLeaf leafIndex).object m).state = .free ↔ (s.object m).state = .free := by
  have hfree : ∀ m, m / syncLeafEntries = leafIndex → (s.object m).state = .free := by
    intro m hm
    by_contra hne
    have := (h.backed m hne).2
    simp [hm, hl] at this
  have hobject : ∀ m, (s.addLeaf leafIndex).object m = s.object m ∨
      m / syncLeafEntries = leafIndex ∧ (s.addLeaf leafIndex).object m = freeSyncObject 1 := by
    intro m
    by_cases hm : m < kernelSyncObjectMax ∧ m / syncLeafEntries = leafIndex
    · exact .inr ⟨hm.2, if_pos (decide_eq_true hm)⟩
    · exact .inl (if_neg (by simpa using hm))
  have hstate : ∀ m, ((s.addLeaf leafIndex).object m).state = .free ↔ (s.object m).state = .free := by
    intro m
    rcases hobject m with hm | ⟨hm, he⟩
    · rw [hm]
    · simp [he, hfree m hm, freeSyncObject]
  have hkept : ∀ m, (s.object m).state ≠ .free → (s.addLeaf leafIndex).object m = s.object m :=
    fun m hm => (hobject m).resolve_right fun h1 => hm (hfree m h1.1)
  refine ⟨⟨⟨?_, fun m hm => ?_, ?_, h.next, fun m => ?_, fun m hm => ?_, fun m hlt t ht => ?_⟩,
    fun m => ?_⟩, hstate⟩
  · refine h.healthy.initQueues fun q => ?_
    rcases q with m | m | m
    · by_cases hm : m < kernelSyncObjectMax ∧ m / syncLeafEntries = leafIndex
      · refine .inr ⟨if_pos (decide_eq_true hm), fun t ht => ?_⟩
        have := (h.unserved m hm.1 t ht).1
        simp [hfree m hm.2] at this
      · exact .inl (if_neg (by simpa using hm))
    · exact .inl rfl
    · exact .inl rfl
  · have hb := h.backed m fun h1 => hm ((hstate m).2 h1)
    refine ⟨hb.1, ?_⟩
    by_cases hm' : m / syncLeafEntries = leafIndex
    · simp [SyncState.addLeaf, hm']
    · simpa [SyncState.addLeaf, hm'] using hb.2
  · exact h.active.trans (congrArg Finset.card (busyObjects_congr hstate)).symm
  · rcases hobject m with hm | ⟨-, hm⟩
    · exact hm ▸ h.count m
    · exact hm ▸ le_rfl
  · have hne := fun h1 => hm ((hstate m).2 h1)
    exact hkept m hne ▸ h.unit m hne
  · obtain ⟨h1, h2⟩ := h.unserved m hlt t ht
    rw [hkept m (by simp [h1])]
    exact ⟨h1, h2⟩
  · by_cases hm : (s.object m).state = .free
    · have hf := (hstate m).2 hm
      exact ⟨fun _ => hf, fun h1 => absurd hf h1, fun h1 => absurd hf h1, fun h1 => absurd hf h1,
        fun h1 => absurd hf h1⟩
    · rw [hkept m hm]
      exact .refl _

theorem ensureObjectLeaf_quiet (h : SyncSound s) (slot : ℕ) (memory : Bool) :
    SyncQuiet s (ensureObjectLeaf s slot memory).2 ∧
      (∀ m, ((ensureObjectLeaf s slot memory).2.object m).state = .free ↔
        (s.object m).state = .free) ∧
      ((ensureObjectLeaf s slot memory).1 = true →
        (ensureObjectLeaf s slot memory).2.objectDirectory (slot / syncLeafEntries) = true) := by
  unfold ensureObjectLeaf
  dsimp only
  split
  · rename_i hl
    exact ⟨.refl h, fun _ => Iff.rfl, fun _ => hl⟩
  rename_i hl
  split_ifs
  · obtain ⟨h1, h2⟩ := addLeaf_quiet h (by simpa using hl)
    exact ⟨h1, h2, fun _ => by simp [SyncState.addLeaf]⟩
  · exact ⟨.refl h, fun _ => Iff.rfl, fun h1 => by simp at h1⟩

theorem allocateObjectSlot_quiet (memory : Bool) : ∀ (fuel : ℕ) {s : SyncState} (offset : ℕ),
    SyncSound s → offset + fuel ≤ kernelSyncObjectMax →
      SyncQuiet s (allocateObjectSlot memory fuel s offset).2 ∧
        ∀ n, (allocateObjectSlot memory fuel s offset).1 = some n →
          validObjectPointer (allocateObjectSlot memory fuel s offset).2 n ∧
          ((allocateObjectSlot memory fuel s offset).2.object n).state = .free ∧
          (s.object n).state = .free
  | 0, s, _, h, _ => ⟨.refl h, fun n hn => by simp [allocateObjectSlot] at hn⟩
  | fuel + 1, s, offset, h, hle => by
    have hlt : (if kernelSyncObjectMax ≤ s.nextObjectSlot + offset
        then s.nextObjectSlot + offset - kernelSyncObjectMax else s.nextObjectSlot + offset)
          < kernelSyncObjectMax := by
      have := h.next
      split_ifs <;> omega
    unfold allocateObjectSlot
    dsimp only
    generalize (if kernelSyncObjectMax ≤ s.nextObjectSlot + offset
      then s.nextObjectSlot + offset - kernelSyncObjectMax else s.nextObjectSlot + offset) = slot
      at hlt ⊢
    obtain ⟨h1, h2, h3⟩ := ensureObjectLeaf_quiet h slot memory
    generalize ensureObjectLeaf s slot memory = r at h1 h2 h3
    obtain ⟨_ | _, s₁⟩ := r
    · exact ⟨h1, fun n hn => by simp at hn⟩
    dsimp only at h1 h2 h3 ⊢
    split
    · rename_i hf
      have hnext : SyncQuiet s₁ { s₁ with
          nextObjectSlot := if slot + 1 = kernelSyncObjectMax then 0 else slot + 1 } := by
        refine ⟨{ h1.sound with next := ?_ }, fun _ => .refl _⟩
        dsimp only
        split_ifs <;> omega
      refine ⟨h1.trans hnext, fun n hn => ?_⟩
      cases hn
      exact ⟨⟨hlt, h3 rfl⟩, hf, (h2 _).1 hf⟩
    · obtain ⟨h4, h5⟩ := allocateObjectSlot_quiet memory fuel (offset + 1) h1.sound (by omega)
      exact ⟨h1.trans h4, fun n hn => ⟨(h5 n hn).1, (h5 n hn).2.1, (h2 n).1 (h5 n hn).2.2⟩⟩

structure Created (s s' : SyncState) (n : ℕ) (type : KernelSyncType) (count maximum : ℕ) : Prop where
  sound : SyncSound s'
  others : ∀ m, m ≠ n → Account (s.object m) (s'.object m) 0 0
  before : (s.object n).state = .free
  live : (s'.object n).state = .live
  type : (s'.object n).type = type
  count : (s'.object n).count = count
  maximum : (s'.object n).maximum = maximum

section

variable (h : SyncSound s)
include h

theorem SyncSound.publish (hv : validObjectPointer s n)
    (hf : (s.object n).state = .free) (owner : ℕ) {type : KernelSyncType}
    (hstate : ∀ o, (f o).state = o.state)
    (htype : ∀ o, (f o).type = o.type)
    (hcount : ∀ o, o.count = 0 → (f o).count ≤ (f o).maximum)
    (hunit : type ≠ .semaphore → ∀ o, (f o).maximum = 1) :
    SyncSound ((s.publish n owner type).setObject n f) := by
  have hn : (((s.publish n owner type).setObject n f).object n).state = .live := by
    simp [SyncState.setObject, SyncState.publish, hstate]
  have hother : ∀ m, m ≠ n →
      ((s.publish n owner type).setObject n f).object m = s.object m := by
    intro m hm
    simp [SyncState.setObject, SyncState.publish, update_of_ne hm]
  have hbusy : busyObjects ((s.publish n owner type).setObject n f) = insert n (busyObjects s) := by
    ext m
    rw [mem_insert]
    simp only [busyObjects, mem_filter, mem_range]
    rcases eq_or_ne m n with rfl | hm
    · simp [hn, hv.1]
    · rw [hother m hm]
      simp [hm]
  have hnew : n ∉ busyObjects s := fun hm => (mem_filter.1 hm).2 hf
  refine ⟨?_, fun m hm => ?_, ?_, h.next, fun m => ?_, fun m hm => ?_, fun m hlt t ht => ?_⟩
  · refine h.healthy.initQueues fun q => ?_
    rcases eq_or_ne q (syncQueue n) with rfl | hq
    · refine .inr ⟨update_self .., fun t ht => ?_⟩
      have := (h.unserved n hv.1 t ht).1
      simp [hf] at this
    · exact .inl (update_of_ne hq _ _)
  · rcases eq_or_ne m n with rfl | hne
    · exact hv
    · rw [hother m hne] at hm
      exact h.backed m hm
  · rw [hbusy, card_insert_of_notMem hnew, ← h.active]
    rfl
  · rcases eq_or_ne m n with rfl | hne
    · simpa [SyncState.setObject] using hcount _ (by simp [SyncState.publish, freeSyncObject])
    · rw [hother m hne]
      exact h.count m
  · rcases eq_or_ne m n with rfl | hne
    · intro ht
      have : type ≠ .semaphore := by
        simpa [SyncState.setObject, SyncState.publish, htype] using ht
      simpa [SyncState.setObject] using hunit this _
    · rw [hother m hne] at hm ⊢
      exact h.unit m hm
  · have hw := h.unserved m hlt t ht
    rcases eq_or_ne m n with rfl | hne
    · simp [hf] at hw
    · rwa [hother m hne]

theorem allocateObject_spec (owner : ℕ) (type : KernelSyncType) (grant : SyncGrant) :
    (∃ status s₁, allocateObject s owner type grant = (status, s₁, none) ∧ SyncQuiet s s₁) ∨
      ∃ n s₁, allocateObject s owner type grant = (.ok, s₁.publish n owner type, some n) ∧
        SyncQuiet s s₁ ∧ validObjectPointer s₁ n ∧ (s₁.object n).state = .free ∧
        (s.object n).state = .free := by
  unfold allocateObject
  by_cases hargs : owner = 0 ∨ type = .none
  · exact .inl ⟨_, _, if_pos hargs, .refl h⟩
  rw [if_neg hargs]
  by_cases ha : grant.attempt = false
  · exact .inl ⟨_, _, if_pos ha, .refl h⟩
  rw [if_neg ha]
  obtain ⟨h1, h2⟩ := allocateObjectSlot_quiet grant.leaf kernelSyncObjectMax 0 h (Nat.zero_add _).le
  generalize allocateObjectSlot grant.leaf kernelSyncObjectMax s 0 = r at h1 h2
  obtain ⟨_ | n, s₁⟩ := r
  · exact .inl ⟨_, _, rfl, h1⟩
  obtain ⟨hv, hf, hf'⟩ := h2 n rfl
  dsimp only
  by_cases hu : grant.unit = false
  · exact .inl ⟨_, _, if_pos hu, h1.trans (.corrupted h1.sound)⟩
  rw [if_neg hu]
  by_cases hbad : (s₁.object n).state ≠ .free ∨ (s₁.object n).timerPosition ≠ none
  · exact .inl ⟨_, _, if_pos hbad, h1.trans (.corrupted h1.sound)⟩
  · exact .inr ⟨n, s₁, if_neg hbad, h1, hv, hf, hf'⟩

theorem create_spec (owner : ℕ) (type : KernelSyncType) (grant : SyncGrant) {count maximum : ℕ}
    (hstate : ∀ o, (f o).state = o.state) (htype : ∀ o, (f o).type = o.type)
    (hcount : ∀ o, o.count = 0 → (f o).count = count) (hmaximum : ∀ o, (f o).maximum = maximum)
    (hle : count ≤ maximum) (hunit : type ≠ .semaphore → maximum = 1) :
    SyncQuiet s (match allocateObject s owner type grant with
        | (.ok, s, some n) => (.ok, s.setObject n f, some n)
        | r => r : KernelSyncStatus × SyncState × Option ℕ).2.1 ∨
      ∃ n, Created s (match allocateObject s owner type grant with
        | (.ok, s, some n) => (.ok, s.setObject n f, some n)
        | r => r : KernelSyncStatus × SyncState × Option ℕ).2.1 n type count maximum := by
  rcases allocateObject_spec h owner type grant with ⟨status, s₁, he, hq⟩ | ⟨n, s₁, he, hq, hv, hf, hf'⟩
  · rw [he]
    left
    cases status <;> exact hq
  · rw [he]
    right
    have hs : SyncSound ((s₁.publish n owner type).setObject n f) :=
      hq.sound.publish hv hf owner hstate htype (fun o ho => by rw [hcount o ho, hmaximum]; exact hle)
        fun ht o => (hmaximum o).trans (hunit ht)
    refine ⟨n, hs, fun m hm => ?_, hf', ?_, ?_, ?_, ?_⟩
    · have ha := hq.account m
      simpa [SyncState.setObject, SyncState.publish, update_of_ne hm] using ha
    · simp [SyncState.setObject, SyncState.publish, hstate]
    · simp [SyncState.setObject, SyncState.publish, htype]
    · simpa [SyncState.setObject] using hcount _ (by simp [SyncState.publish, freeSyncObject])
    · simp [SyncState.setObject, hmaximum]

theorem SyncSound.setObject
    (hf : SameObject (s.object n) (f (s.object n))) : SyncQuiet s (s.setObject n f) :=
  (TimerStep.setObject hf).quiet h

theorem discardSyncMetadata_quiet (ha : s.activeObjectCount = 0) :
    SyncQuiet s (discardSyncMetadata s).2 := by
  unfold discardSyncMetadata
  split_ifs
  · exact .refl h
  · refine ⟨{ h with backed := fun m hm => ?_, next := Nat.zero_lt_succ _ }, fun _ => .refl _⟩
    have hmem : m ∈ busyObjects s :=
      mem_filter.2 ⟨mem_range.2 (h.backed m hm).1, hm⟩
    rw [h.active, card_eq_zero] at ha
    simp [ha] at hmem

section

variable (hb : (s.object n).state ≠ .free)
include hb

theorem SyncSound.freed (hw : ∀ t, ¬ Waits s.pool t (syncQueue n)) {generation : ℕ}
    (hn : s₁.object n = freeSyncObject generation) (ho : ∀ m, m ≠ n → s₁.object m = s.object m)
    (hp : s₁.pool = s.pool) (hd : s₁.objectDirectory = s.objectDirectory)
    (hx : s₁.nextObjectSlot < kernelSyncObjectMax)
    (ha : s₁.activeObjectCount = s.activeObjectCount - 1) : SyncQuiet s s₁ := by
  have hmem : n ∈ busyObjects s :=
    mem_filter.2 ⟨mem_range.2 (h.backed n hb).1, hb⟩
  have hfree : (s₁.object n).state = .free := by rw [hn]; rfl
  have herase : busyObjects s₁ = (busyObjects s).erase n := by
    ext m
    rw [mem_erase]
    simp only [busyObjects, mem_filter]
    rcases eq_or_ne m n with rfl | hne
    · simp [hfree]
    · simp [ho m hne, hne]
  have hbusy : ∀ m, (s₁.object m).state ≠ .free → m ≠ n := fun m hm h1 => hm (h1 ▸ hfree)
  refine ⟨⟨hp ▸ h.healthy, fun m hm => ?_, ?_, hx, fun m => ?_, fun m hm => ?_,
    fun m hlt t ht => ?_⟩, fun m => ?_⟩
  · have hne := hbusy m hm
    rw [ho m hne] at hm
    have := h.backed m hm
    rwa [validObjectPointer, hd]
  · rw [ha, herase, card_erase_of_mem hmem, h.active]
  · rcases eq_or_ne m n with rfl | hne
    · rw [hn]
      exact le_rfl
    · rw [ho m hne]
      exact h.count m
  · have hne := hbusy m hm
    rw [ho m hne] at hm ⊢
    exact h.unit m hm
  · rw [hp] at ht
    rcases eq_or_ne m n with rfl | hne
    · exact absurd ht (hw t)
    · rw [ho m hne]
      exact h.unserved m hlt t ht
  · rcases eq_or_ne m n with rfl | hne
    · exact ⟨fun _ => hfree, fun h1 => absurd hfree h1, fun h1 => absurd hfree h1,
        fun h1 => absurd hfree h1, fun h1 => absurd hfree h1⟩
    · rw [ho m hne]
      exact .refl _

theorem freeObject_quiet : SyncQuiet s (freeObject s n) := by
  unfold freeObject
  split
  · exact .corrupted h
  rename_i hgate
  push Not at hgate
  obtain ⟨hv, -, -, hcount⟩ := hgate
  have hw : ∀ t, ¬ Waits s.pool t (syncQueue n) := fun t ht =>
    h.healthy.waitQueueCount_ne ht hcount
  have hpos : s.activeObjectCount ≠ 0 := by
    rw [h.active]
    exact (card_pos.2
      ⟨n, mem_filter.2 ⟨mem_range.2 hv.1, hb⟩⟩).ne'
  have hself : (s.setObject n fun o => freeSyncObject o.generation).object n
      = freeSyncObject (s.object n).generation := update_self ..
  have hother : ∀ m, m ≠ n →
      (s.setObject n fun o => freeSyncObject o.generation).object m = s.object m :=
    fun m hm => update_of_ne hm _ _
  have hpool : (s.setObject n fun o => freeSyncObject o.generation).pool = s.pool := rfl
  have hdirectory : (s.setObject n fun o => freeSyncObject o.generation).objectDirectory
      = s.objectDirectory := rfl
  have hactive : (s.setObject n fun o => freeSyncObject o.generation).activeObjectCount
      = s.activeObjectCount := rfl
  have hnext : (s.setObject n fun o => freeSyncObject o.generation).nextObjectSlot
      = s.nextObjectSlot := rfl
  generalize (s.setObject n fun o => freeSyncObject o.generation) = s₁ at *
  have hfreed : ∀ k < kernelSyncObjectMax, SyncQuiet s { s₁ with
      activeObjectCount := s₁.activeObjectCount - 1
      nextObjectSlot := k } := fun k hk =>
    h.freed hb hw hself hother hpool hdirectory hk (by rw [hactive])
  have hkept : SyncQuiet s { s₁ with activeObjectCount := s₁.activeObjectCount - 1 } :=
    hfreed s₁.nextObjectSlot (hnext ▸ h.next)
  dsimp only
  rw [if_neg (by rwa [hactive])]
  split
  · rename_i hz
    have hd := hkept.trans (discardSyncMetadata_quiet hkept.sound hz)
    generalize discardSyncMetadata _ = r at hd ⊢
    obtain ⟨_ | _, s₂⟩ := r
    · exact hd.trans (.corrupted hd.sound)
    · exact hd
  split_ifs
  · exact hfreed n hv.1
  · exact hkept

theorem releaseLast_quiet : SyncQuiet s (releaseLast s n) := by
  have hz : SyncQuiet s (s.setObject n fun o => { o with references := 0 }) :=
    h.setObject ⟨rfl, rfl, rfl, rfl, rfl⟩
  refine hz.trans (freeObject_quiet hz.sound ?_)
  simpa [SyncState.setObject] using hb

end

theorem SyncSound.wakeAll {o : KernelSyncObject} (result : ℕ)
    (hfree : o.state = .free ↔ (s.object n).state = .free) (hcount : o.count ≤ o.maximum)
    (hunit : o.state ≠ .free → o.type ≠ .semaphore → o.maximum = 1)
    (ha : Account (s.object n) o 0 0) :
    ∃ p woken, kernelThreadWakeAll s.pool (syncQueue n) result = ((.ok, p), woken) ∧
      SyncQuiet s { s with pool := p, object := update s.object n o } := by
  obtain ⟨p, woken, he, hp, hempty, hw⟩ := wakeAll_waits h.healthy (syncQueue n) result
  refine ⟨p, woken, he, .of_change (h.change hp hfree hcount hunit ?_ ?_) ha⟩
  · exact fun t ht => absurd ht (hempty t)
  · exact fun m _ _ t ht => hw t _ ht

theorem closeObject_quiet (hb : (s.object n).state ≠ .free) (wakeResult : ℕ) :
    SyncQuiet s (closeObject s n wakeResult).2.1 := by
  unfold closeObject
  split
  · exact .refl h
  split
  · exact .refl h
  split
  · exact .refl h
  have hrem : TimerStep s (if (s.object n).type = .timer then timerRemove s n else (true, s)).2 := by
    split_ifs
    · exact timerRemove_step s n
    · exact .refl s
  generalize (if (s.object n).type = .timer then timerRemove s n else (true, s)) = removed at hrem ⊢
  dsimp only
  have hq := hrem.quiet h
  have hsame := hrem.object n
  split
  · exact hq
  have hfree : (removed.2.object n).state ≠ .free := by rwa [hsame.state]
  have ho : ({ removed.2.object n with state := .closing, closeResult := wakeResult }
      : KernelSyncObject).state = .free ↔ (removed.2.object n).state = .free := by
    simp [hfree]
  obtain ⟨p, woken, he, hwoke⟩ := hq.sound.wakeAll (n := n)
    (o := { removed.2.object n with state := .closing, closeResult := wakeResult }) wakeResult ho
    (hq.sound.count n) (fun _ => hq.sound.unit n hfree)
    ⟨fun h1 => absurd h1 hfree, fun _ => rfl, fun _ => rfl, fun _ _ => rfl, fun _ _ => le_rfl⟩
  have he' : kernelThreadWakeAll (removed.2.setObject n fun o => { o with
      state := .closing
      closeResult := wakeResult }).pool (syncQueue n) wakeResult = ((.ok, p), woken) := he
  rw [he']
  dsimp only
  split_ifs
  · refine (hq.trans hwoke).trans (freeObject_quiet hwoke.sound ?_)
    simp
  · exact hq.trans hwoke

end

end

end Astra
