import AstraKernel.Proofs.SyncUnits

/-!
# What semaphores and events count

Over any run, the units in a semaphore and those its waits have taken are those it was created with
and those signalled. An auto-reset event keeps one signal at most, and each signal satisfies one
wait at most.
-/

namespace Astra

open Finset Function

/-- The units that an event creates an object with. -/
def SyncEvent.initialCount : SyncEvent → ℕ
  | .createEvent _ flags _ => if flags &&& kernelSyncEventInitiallySignaled ≠ 0 then 1 else 0
  | .createSemaphore _ initialCount _ _ => initialCount
  | _ => 0

/-- The most units that an object can have that an event creates. -/
def SyncEvent.maximumCount : SyncEvent → ℕ
  | .createSemaphore _ _ maximumCount _ => maximumCount
  | _ => 1

/-- The units that a successful signal puts into the object. -/
def SyncState.released (s : SyncState) (n : ℕ) : SyncEvent → ℕ
  | .signal m releaseCount wakeResult =>
    if n = m ∧ (kernelSyncSignal s m releaseCount wakeResult).1 = .ok then releaseCount else 0
  | _ => 0

/-- The waits that an event satisfies with the object: the wait that it is, if a probe finds the
object signalled, or the waits of the threads that a signal of the object makes ready. -/
def SyncState.served (s : SyncState) (n : ℕ) : SyncEvent → ℕ
  | .wait m t now deadline timeoutResult rowMemory heapMemory =>
    if n = m ∧ (kernelSyncWait s m t now deadline timeoutResult rowMemory heapMemory).1 = .ok
    then 1 else 0
  | .waitSet t members multiple now deadline rowMemory heapMemory =>
    if satisfiedBy members n
      (waitHandleSet s t members multiple now deadline rowMemory heapMemory).1 then 1 else 0
  | .signal m releaseCount wakeResult =>
    if n = m then
      (servedThreads s (kernelSyncSignal s m releaseCount wakeResult).2.1 n).card else 0
  | _ => 0

/-- What has happened to the object in a slot since it was created. -/
structure Tally where
  initial : ℕ
  maximum : ℕ
  released : ℕ
  served : ℕ
  deriving DecidableEq, Repr

/-- An event is counted; one that finds the slot free may create the object in it. -/
def SyncState.count (s : SyncState) (n : ℕ) (ev : SyncEvent) (k : Tally) : Tally :=
  if (s.object n).state = .free then ⟨ev.initialCount, ev.maximumCount, 0, 0⟩
  else { k with
    released := k.released + s.released n ev
    served := k.served + s.served n ev }

def SyncState.tally (s : SyncState) (n : ℕ) (k : Tally) : List SyncEvent → Tally
  | [] => k
  | ev :: evs => (s.step ev).tally n (s.count n ev k) evs

structure Counted (s : SyncState) (n : ℕ) (k : Tally) : Prop where
  maximum : (s.object n).state ≠ .free → (s.object n).maximum = k.maximum
  semaphore : (s.object n).state ≠ .free → (s.object n).type = .semaphore →
    (s.object n).count + k.served = k.initial + k.released
  eventAuto : (s.object n).state ≠ .free → (s.object n).type = .eventAuto →
    (s.object n).count + k.served ≤ k.initial + k.released

section

variable {s s' : SyncState} {ev : SyncEvent} {n : ℕ} {k : Tally}

theorem Account.counted {r v : ℕ} (ha : Account (s.object n) (s'.object n) r v)
    (hk : Counted s n k) (hf : (s.object n).state ≠ .free) :
    Counted s' n { k with released := k.released + r, served := k.served + v } := by
  refine ⟨fun h1 => (ha.maximum h1).trans (hk.maximum hf), fun h1 h2 => ?_, fun h1 h2 => ?_⟩
  · have e1 := ha.semaphore h1 ((ha.type h1).symm.trans h2)
    have e2 := hk.semaphore hf ((ha.type h1).symm.trans h2)
    dsimp only
    omega
  · have e1 := ha.eventAuto h1 ((ha.type h1).symm.trans h2)
    have e2 := hk.eventAuto hf ((ha.type h1).symm.trans h2)
    dsimp only
    omega

theorem Counted.of_free (hf : (s.object n).state = .free) : Counted s n k :=
  ⟨fun h1 => absurd hf h1, fun h1 => absurd hf h1, fun h1 => absurd hf h1⟩

theorem initialCount_createEvent (owner : ℕ) (flags : BitVec 32) (grant : SyncGrant) :
    (SyncEvent.createEvent owner flags grant).initialCount ≤ 1 := by
  show (if _ then 1 else 0) ≤ 1
  split_ifs <;> omega

theorem step_moves (h : SyncSound s) (hs : SyncSane s ev) :
    (SyncMoves s (s.step ev) (fun n => s.released n ev) fun n => s.served n ev) ∨
      ∃ n type, Created s (s.step ev) n type ev.initialCount ev.maximumCount ∧
        ∀ m, s.released m ev = 0 ∧ s.served m ev = 0 := by
  have hquiet : ∀ {s'}, SyncQuiet s s' → (∀ m, s.released m ev = 0) → (∀ m, s.served m ev = 0) →
      SyncMoves s s' (fun n => s.released n ev) fun n => s.served n ev :=
    fun hq hr hv => hq.moves hr hv
  cases ev with
  | thread op =>
    left
    obtain ⟨hsane, hforeign⟩ := hs
    refine hquiet (h.withPool (step_effect h.healthy op hsane).1 fun n hn t ht => ?_) (fun _ => rfl)
      fun _ => rfl
    refine step_waits h.healthy hsane (fun hname => ?_) ht
    cases op with
    | blockUntil x queue expectedSequence now deadline timeoutResult rowMemory heapMemory =>
      exact absurd hn (Nat.not_lt.2 (hforeign _ hname))
    | blockWaitSet x specs now deadline timeoutResult rowMemory heapMemory =>
      obtain ⟨spec, hspec, hq⟩ := hname
      exact absurd hn (Nat.not_lt.2 (hforeign spec hspec _ hq))
    | callBlock x now deadline rowMemory heapMemory => simp [ThreadOp.names, syncQueue] at hname
    | waitForDeath target waiter now deadline timeoutResult rowMemory heapMemory =>
      simp [ThreadOp.names, syncQueue] at hname
    | _ => exact hname
  | createEvent owner flags grant =>
    show SyncMoves s (kernelSyncCreateEvent s owner flags grant).2.1 _ _ ∨ ∃ n type,
      Created s (kernelSyncCreateEvent s owner flags grant).2.1 n type _ _ ∧ _
    unfold kernelSyncCreateEvent
    split
    · exact .inl (hquiet (.refl h) (fun _ => rfl) fun _ => rfl)
    rcases create_spec h owner
      (if flags &&& kernelSyncEventManualReset ≠ 0 then .eventManual else .eventAuto) grant
      (f := fun o => { o with
        count := if flags &&& kernelSyncEventInitiallySignaled ≠ 0 then 1 else 0
        maximum := 1 }) (fun _ => rfl) (fun _ => rfl) (fun _ _ => rfl) (fun _ => rfl)
      (initialCount_createEvent owner flags grant) (fun _ => rfl) with hq | ⟨n, hc⟩
    · exact .inl (hquiet hq (fun _ => rfl) fun _ => rfl)
    · exact .inr ⟨n, _, hc, fun _ => ⟨rfl, rfl⟩⟩
  | createSemaphore owner initialCount maximumCount grant =>
    show SyncMoves s (kernelSyncCreateSemaphore s owner initialCount maximumCount grant).2.1 _ _ ∨
      ∃ n type, Created s
        (kernelSyncCreateSemaphore s owner initialCount maximumCount grant).2.1 n type _ _ ∧ _
    unfold kernelSyncCreateSemaphore
    split
    · exact .inl (hquiet (.refl h) (fun _ => rfl) fun _ => rfl)
    rcases create_spec h owner .semaphore grant (f := fun o => { o with
        count := initialCount
        maximum := maximumCount }) (fun _ => rfl) (fun _ => rfl) (fun _ _ => rfl) (fun _ => rfl)
      (by omega) (fun h1 => absurd rfl h1) with hq | ⟨n, hc⟩
    · exact .inl (hquiet hq (fun _ => rfl) fun _ => rfl)
    · exact .inr ⟨n, _, hc, fun _ => ⟨rfl, rfl⟩⟩
  | createTimer owner grant =>
    rcases create_spec h owner .timer grant (f := fun o => { o with maximum := 1 }) (fun _ => rfl)
      (fun _ => rfl) (fun _ ho => ho) (fun _ => rfl) (Nat.zero_le 1) (fun _ => rfl) with hq | ⟨n, hc⟩
    · exact .inl (hquiet hq (fun _ => rfl) fun _ => rfl)
    · exact .inr ⟨n, _, hc, fun _ => ⟨rfl, rfl⟩⟩
  | retain n => exact .inl (hquiet (kernelSyncRetain_quiet h n) (fun _ => rfl) fun _ => rfl)
  | release n => exact .inl (hquiet (kernelSyncHandleRelease_quiet h n) (fun _ => rfl) fun _ => rfl)
  | wait n t now deadline timeoutResult rowMemory heapMemory =>
    left
    obtain ⟨status, s₁, he, hm⟩ := kernelSyncWait_spec h n t now deadline timeoutResult rowMemory
      heapMemory
    simpa only [SyncState.step, SyncState.released, SyncState.served, he] using hm
  | waitSet t members multiple now deadline rowMemory heapMemory =>
    exact .inl (waitHandleSet_moves h hs multiple now deadline rowMemory heapMemory)
  | signal n releaseCount wakeResult =>
    left
    rcases kernelSyncSignal_spec h n releaseCount wakeResult with ⟨status, hne, he⟩ |
      ⟨s₁, woken, he, -, hm⟩
    · simp only [SyncState.step, SyncState.released, SyncState.served, he, hne, and_false, if_false]
      refine (SyncQuiet.refl h).moves (fun _ => rfl) fun m => ?_
      rw [WokeSome.servedThreads h (.refl h.healthy _), card_empty, ite_self]
    · simp only [SyncState.step, SyncState.released, SyncState.served, he, and_true]
      convert hm using 3 with m hm
      rw [hm]
  | reset n => exact .inl (hquiet (kernelSyncReset_quiet h n) (fun _ => rfl) fun _ => rfl)
  | timerSet n now deadline memory =>
    exact .inl (hquiet (kernelSyncTimerSet_quiet h n now deadline memory) (fun _ => rfl) fun _ => rfl)
  | timerCancel n wakeResult =>
    exact .inl (hquiet (kernelSyncTimerCancel_quiet h n wakeResult) (fun _ => rfl) fun _ => rfl)
  | expireTimers now =>
    exact .inl (hquiet (expireTimers_quiet now _ 0 0 h) (fun _ => rfl) fun _ => rfl)
  | ownerDied owner wakeResult =>
    left
    refine hquiet ?_ (fun _ => rfl) fun _ => rfl
    show SyncQuiet s (kernelSyncOwnerDied s owner wakeResult).2.1
    unfold kernelSyncOwnerDied
    split_ifs
    · exact .refl h
    · exact ownerDiedSlots_quiet owner wakeResult _ 0 0 h

theorem step_counted (h : SyncSound s) (hs : SyncSane s ev) (hk : Counted s n k) :
    SyncSound (s.step ev) ∧ Counted (s.step ev) n (s.count n ev k) := by
  unfold SyncState.count
  rcases step_moves h hs with hm | ⟨m, type, hc, hz⟩
  · refine ⟨hm.sound, ?_⟩
    by_cases hf : (s.object n).state = .free
    · exact .of_free ((hm.account n).free hf)
    · rw [if_neg hf]
      exact (hm.account n).counted hk hf
  · refine ⟨hc.sound, ?_⟩
    rcases eq_or_ne n m with rfl | hne
    · rw [if_pos hc.before]
      refine ⟨fun _ => hc.maximum, fun _ _ => ?_, fun _ _ => ?_⟩
      · exact congrArg (· + 0) hc.count
      · exact (congrArg (· + 0) hc.count).le
    · have ha := hc.others n hne
      by_cases hf : (s.object n).state = .free
      · exact .of_free (ha.free hf)
      · rw [if_neg hf, (hz n).1, (hz n).2]
        exact ha.counted hk hf

theorem syncRun_counted : ∀ (evs : List SyncEvent) {s : SyncState} {k : Tally}, SyncSound s →
    s.Along SyncSane evs → Counted s n k →
      SyncSound (s.run evs) ∧ Counted (s.run evs) n (s.tally n k evs)
  | [], _, _, h, _, hk => ⟨h, hk⟩
  | _ :: evs, _, _, h, ha, hk => by
    obtain ⟨h1, h2⟩ := step_counted h ha.1 hk
    exact syncRun_counted evs h1 ha.2 h2

theorem syncSound_init (audit : Bool) : SyncSound (kernelSyncPoolInit (kernelThreadPoolInit audit)) := by
  refine ⟨healthy_init audit, fun m hm => absurd rfl hm, ?_, Nat.zero_lt_succ _, fun _ => le_rfl,
    fun m hm => absurd rfl hm, fun m _ t ht => ?_⟩
  · refine (card_eq_zero.2 (filter_eq_empty_iff.2 fun m _ => ?_)).symm
    exact not_not.2 rfl
  · exact absurd ht.1 (by simp [kernelSyncPoolInit, kernelThreadPoolInit, validThread])

/-- The state after some events, from the pools as they are initialised. -/
def syncAfter (audit : Bool) (evs : List SyncEvent) : SyncState :=
  (kernelSyncPoolInit (kernelThreadPoolInit audit)).run evs

/-- What has happened to the object in a slot, in a run from the pools as they are initialised. -/
def tallyAfter (audit : Bool) (evs : List SyncEvent) (n : ℕ) : Tally :=
  (kernelSyncPoolInit (kernelThreadPoolInit audit)).tally n ⟨0, 0, 0, 0⟩ evs

/-- A semaphore's units are accounted for, within its maximum, and while it has any no one waits on
it; a signal that is refused for its count changes nothing. -/
structure SemaphoreExact (s : SyncState) (n : ℕ) (k : Tally) : Prop where
  count : (s.object n).count + k.served = k.initial + k.released
  maximum : (s.object n).count ≤ k.maximum
  unserved : 0 < (s.object n).count → ∀ t, ¬ Waits s.pool t (syncQueue n)
  refused : ∀ releaseCount wakeResult,
    (kernelSyncSignal s n releaseCount wakeResult).1 = .countLimit →
      (kernelSyncSignal s n releaseCount wakeResult).2.1 = s

/-- An auto-reset event has served no more waits than it was signalled for, keeps one signal at most,
and that only while no one waits on it; of a signal there is one wait satisfied, or it is kept, at
most. -/
structure EventAutoExact (s : SyncState) (n : ℕ) (k : Tally) : Prop where
  count : (s.object n).count + k.served ≤ k.initial + k.released
  maximum : (s.object n).count ≤ 1
  unserved : 0 < (s.object n).count → ∀ t, ¬ Waits s.pool t (syncQueue n)
  signal : ∀ releaseCount wakeResult,
    (servedThreads s (kernelSyncSignal s n releaseCount wakeResult).2.1 n).card
      + ((kernelSyncSignal s n releaseCount wakeResult).2.1.object n).count ≤ 1

/-- In every run of sane calls the semaphores and the auto-reset events count exactly. -/
theorem run_counts_exact (audit : Bool) (evs : List SyncEvent)
    (hs : (kernelSyncPoolInit (kernelThreadPoolInit audit)).Along SyncSane evs) (n : ℕ)
    (hb : ((syncAfter audit evs).object n).state ≠ .free) :
    (((syncAfter audit evs).object n).type = .semaphore →
        SemaphoreExact (syncAfter audit evs) n (tallyAfter audit evs n)) ∧
      (((syncAfter audit evs).object n).type = .eventAuto →
        EventAutoExact (syncAfter audit evs) n (tallyAfter audit evs n)) := by
  obtain ⟨h, hk⟩ := syncRun_counted (n := n) (k := ⟨0, 0, 0, 0⟩) evs (syncSound_init audit) hs
    (.of_free rfl)
  change SyncSound (syncAfter audit evs) at h
  change Counted (syncAfter audit evs) n (tallyAfter audit evs n) at hk
  generalize syncAfter audit evs = s at *
  have hunserved : 0 < (s.object n).count → ∀ t, ¬ Waits s.pool t (syncQueue n) := by
    intro hpos t ht
    have := (h.unserved n (h.backed n hb).1 t ht).2
    omega
  refine ⟨fun ht => ⟨hk.semaphore hb ht, hk.maximum hb ▸ h.count n, hunserved,
    fun r w hr => ?_⟩, fun ht => ⟨hk.eventAuto hb ht, ?_, hunserved, fun r w => ?_⟩⟩
  · rcases kernelSyncSignal_spec h n r w with ⟨status, -, he⟩ | ⟨s₁, woken, he, -⟩
    · rw [he]
    · simp [he] at hr
  · have := h.count n
    rwa [h.unit n hb (by simp [ht])] at this
  · rcases kernelSyncSignal_spec h n r w with ⟨status, -, he⟩ | ⟨s₁, woken, he, hone, -⟩
    · rw [he, WokeSome.servedThreads h (.refl h.healthy _), card_empty, Nat.zero_add]
      have := h.count n
      rwa [h.unit n hb (by simp [ht])] at this
    · rw [he]
      exact hone ht

/-- One thread waits on a semaphore twice over and another once; a signal of three units then wakes
both and leaves a unit. -/
def signalledTwice : List SyncEvent :=
  [.createSemaphore 1 0 2 ⟨true, true, true⟩,
    .thread (.allocate 1 101 4096 8192 0 10 ⟨true, true, true⟩), .thread (.attachHandle 0 1),
    .thread (.publish 0), .thread .takeNext,
    .waitSet 0 [.sync 0, .sync 0] true 0 kernelThreadDeadlineNever true true,
    .thread (.allocate 2 102 4096 8192 0 10 ⟨true, true, true⟩), .thread (.attachHandle 1 1),
    .thread (.publish 1), .thread .takeNext,
    .wait 0 1 0 kernelThreadDeadlineNever astraSyscallTimedOut true true,
    .signal 0 3 astraSyscallOk]

theorem signalledTwice_sane (s : SyncState) : s.Along SyncSane signalledTwice := by
  simp [signalledTwice, SyncState.Along, SyncSane, Sane, Admissible, Retirable, ThreadOp.foreign]

theorem run_counts_exact_signalled :
    (tallyAfter false signalledTwice 0 = ⟨0, 2, 3, 2⟩ ∧
      ((syncAfter false signalledTwice).object 0).count = 1) ∧
      (((syncAfter false signalledTwice).object 0).type = .semaphore →
        SemaphoreExact (syncAfter false signalledTwice) 0 (tallyAfter false signalledTwice 0)) ∧
      (((syncAfter false signalledTwice).object 0).type = .eventAuto →
        EventAutoExact (syncAfter false signalledTwice) 0 (tallyAfter false signalledTwice 0)) :=
  ⟨⟨by decide +kernel, by decide +kernel⟩,
    run_counts_exact false signalledTwice (signalledTwice_sane _) 0 (by decide +kernel)⟩

end

end Astra
