import AstraKernel.Host.Wait
import Mathlib.Logic.Relation
import Mathlib.Tactic.SplitIfs

/-!
# Nobody sleeps past a completion

A thread asleep on a slot has its bit set, and the slot is armed, or its interrupt was raised, or
the scan that the interrupt started has not come to it (`HostWaits.Awaited`). Each primitive change
of the state keeps that.
-/

namespace Astra

open Function

/-- The scan has still to come to the slot. -/
def Unscanned : KernelTask → HostSlot → Prop
  | .scanChannels i _ _, .channel j => i ≤ j
  | .scanChannels _ _ _, .stream _ => True
  | .scanStreams i _ _, .stream j => i ≤ j
  | _, _ => False

namespace HostWaits

variable {σ : HostWaits} {slot s : HostSlot} {thread : UInt32}

def Alert (σ : HostWaits) (slot : HostSlot) : Prop :=
  σ.armed slot ≠ none ∨ σ.raised slot = true

def Awaited (σ : HostWaits) (slot : HostSlot) : Prop :=
  σ.Alert slot ∨ Unscanned σ.task slot

def Home (σ : HostWaits) (queue : List UInt32) : HostSlot → Prop
  | .channel i => (σ.channels i).active = true ∧ (σ.channels i).waiting = true ∧
    ∀ thread ∈ queue, thread = (σ.channels i).threadId
  | .stream i => (σ.streams i).state = .opened

def SleepSound (σ : HostWaits) (slot : HostSlot) : Prop :=
  σ.waiters slot ≠ [] → σ.waiting slot = true ∧ σ.Awaited slot ∧ σ.Home (σ.waiters slot) slot

structure SlotsSound (σ : HostWaits) : Prop where
  queued : ∀ thread slot, σ.asleep thread = some slot ↔ thread ∈ σ.waiters slot
  slots : ∀ slot, σ.SleepSound slot

def TaskSound (σ : HostWaits) : Prop :=
  match σ.task with
  | .channelArm thread i _ => σ.asleep thread.id = none ∧ σ.waiters (.channel i) = [] ∧
    (σ.channels i).active = true ∧ (σ.channels i).threadId = thread.id
  | .channelLook thread i _ | .channelBlock thread i _ =>
    σ.asleep thread.id = none ∧ σ.waiters (.channel i) = [] ∧
    (σ.channels i).active = true ∧ (σ.channels i).threadId = thread.id ∧
    (σ.channels i).waiting = true ∧ σ.waiting (.channel i) = true ∧ σ.Alert (.channel i)
  | .streamArm thread i => σ.asleep thread.id = none ∧ (σ.streams i).state = .opened
  | .streamLook thread i | .streamBlock thread i =>
    σ.asleep thread.id = none ∧ (σ.streams i).state = .opened ∧
    σ.waiting (.stream i) = true ∧ σ.Alert (.stream i)
  | _ => True

/-! ## The primitive changes -/

variable {i : Fin kernelVmHostChannelPageCount} {σ' : HostWaits} {task : KernelTask}

theorem SleepSound.frame (h : σ.SleepSound slot)
    (hwaiters : σ'.waiters slot = σ.waiters slot) (hwaiting : σ'.waiting slot = σ.waiting slot)
    (hawaited : σ.Awaited slot → σ'.Awaited slot)
    (hhome : σ.Home (σ.waiters slot) slot → σ'.Home (σ.waiters slot) slot) :
    σ'.SleepSound slot := by
  intro hne
  rw [hwaiters] at hne ⊢
  obtain ⟨h1, h2, h3⟩ := h hne
  exact ⟨hwaiting.trans h1, hawaited h2, hhome h3⟩

theorem sleepSound_of_empty (h : σ.waiters slot = []) : σ.SleepSound slot :=
  fun hne => absurd h hne

section

variable (h : σ.SlotsSound)
include h

theorem SlotsSound.setChannel (hi : σ.waiters (.channel i) = []) (channel : KernelHostChannel) :
    (σ.setChannel i channel).SlotsSound where
  queued := h.queued
  slots slot := by
    cases slot with
    | stream j => exact (h.slots (.stream j)).frame rfl rfl id id
    | channel j =>
      by_cases hij : j = i
      · subst hij
        exact sleepSound_of_empty hi
      · refine (h.slots (.channel j)).frame rfl rfl id ?_
        simp only [Home, HostWaits.setChannel, update_of_ne hij, imp_self]

theorem SlotsSound.setStream {i : Fin kernelAudioStreamMax}
    (hi : σ.waiters (.stream i) = []) (stream : KernelAudioStream) :
    (σ.setStream i stream).SlotsSound where
  queued := h.queued
  slots slot := by
    cases slot with
    | channel j => exact (h.slots (.channel j)).frame rfl rfl id id
    | stream j =>
      by_cases hij : j = i
      · subst hij
        exact sleepSound_of_empty hi
      · refine (h.slots (.stream j)).frame rfl rfl id ?_
        simp only [Home, HostWaits.setStream, update_of_ne hij, imp_self]

theorem SlotsSound.mark (s : HostSlot) : (σ.setWaiting s true).SlotsSound where
  queued := h.queued
  slots slot := by
    by_cases hs : slot = s
    · subst hs
      intro hne
      obtain ⟨-, h2, h3⟩ := h.slots slot hne
      exact ⟨update_self .., h2, h3⟩
    · exact (h.slots slot).frame rfl (update_of_ne hs ..) id id

theorem SlotsSound.unmark (hs : σ.waiters s = []) : (σ.setWaiting s false).SlotsSound where
  queued := h.queued
  slots slot := by
    by_cases hslot : slot = s
    · subst hslot
      exact sleepSound_of_empty hs
    · exact (h.slots slot).frame rfl (update_of_ne hslot ..) id id

theorem SlotsSound.disarm (hs : σ.waiters s = []) : (σ.disarm s).SlotsSound where
  queued := h.queued
  slots slot := by
    by_cases hslot : slot = s
    · subst hslot
      exact sleepSound_of_empty hs
    · refine (h.slots slot).frame rfl rfl ?_ id
      simp only [Awaited, Alert, HostWaits.disarm, update_of_ne hslot, imp_self]

end

theorem initQueue_of_empty (hs : σ.waiters s = []) : σ.initQueue s = σ := by
  rw [initQueue, ← hs, update_eq_self]

theorem SlotsSound.wakeAll (h : σ.SlotsSound) (s : HostSlot) : (σ.wakeAll s).SlotsSound where
  queued thread slot := by
    have hself := h.queued thread
    by_cases hslot : slot = s
    · subst hslot
      simp only [HostWaits.wakeAll, update_self, List.not_mem_nil, iff_false]
      split_ifs with hin
      · exact nofun
      · rwa [hself]
    · simp only [HostWaits.wakeAll, update_of_ne hslot]
      split_ifs with hin
      · -- the thread was asleep on the other slot
        have hs := (hself s).mpr hin
        rw [← hself slot, hs]
        exact ⟨nofun, fun heq => absurd (Option.some.inj heq).symm hslot⟩
      · exact hself slot
  slots slot := by
    by_cases hslot : slot = s
    · subst hslot
      exact sleepSound_of_empty (update_self ..)
    · exact (h.slots slot).frame (update_of_ne hslot ..) rfl id id

@[simp] theorem waiters_wakeAll (σ : HostWaits) (s : HostSlot) : (σ.wakeAll s).waiters s = [] :=
  update_self ..

theorem SlotsSound.block (h : σ.SlotsSound) (hthread : σ.asleep thread = none)
    (hwaiting : σ.waiting s = true) (halert : σ.Alert s)
    (hhome : σ.Home (σ.waiters s ++ [thread]) s) : (σ.block thread s).SlotsSound where
  queued other slot := by
    have hnot : ∀ slot, thread ∉ σ.waiters slot := fun slot hin => by
      rw [← h.queued, hthread] at hin
      cases hin
    by_cases hother : other = thread
    · subst hother
      simp only [HostWaits.block, update_self]
      by_cases hslot : slot = s
      · subst hslot
        simp
      · simp only [update_of_ne hslot, hnot slot, iff_false, Option.some.injEq]
        exact fun heq => hslot heq.symm
    · simp only [HostWaits.block, update_of_ne hother]
      by_cases hslot : slot = s
      · subst hslot
        rw [update_self, h.queued]
        simp [hother]
      · rw [update_of_ne hslot, h.queued]
  slots slot := by
    by_cases hslot : slot = s
    · subst hslot
      intro _
      refine ⟨hwaiting, .inl halert, ?_⟩
      rw [show (σ.block thread slot).waiters slot = σ.waiters slot ++ [thread] from
        update_self ..]
      cases slot <;> exact hhome
    · exact (h.slots slot).frame (update_of_ne hslot ..) rfl id
        (by cases slot <;> exact id)

theorem SlotsSound.expire (h : σ.SlotsSound) (thread : UInt32) : (σ.expire thread).SlotsSound := by
  unfold HostWaits.expire
  cases hat : σ.asleep thread with
  | none => exact h
  | some s =>
    have hnot : ∀ slot, slot ≠ s → thread ∉ σ.waiters slot := fun slot hne hin => by
      rw [← h.queued, hat] at hin
      exact hne (Option.some.inj hin).symm
    constructor
    · intro other slot
      by_cases hother : other = thread
      · subst hother
        simp only [update_self]
        by_cases hslot : slot = s
        · subst hslot
          simp
        · simp only [update_of_ne hslot, hnot slot hslot, iff_false]
          exact nofun
      · simp only [update_of_ne hother]
        by_cases hslot : slot = s
        · subst hslot
          rw [update_self, h.queued, List.mem_filter]
          simp [hother]
        · rw [update_of_ne hslot, h.queued]
    · intro slot
      by_cases hslot : slot = s
      · subst hslot
        intro hne
        simp only [update_self] at hne
        have hsome : σ.waiters slot ≠ [] := fun hnil => hne (by rw [hnil]; rfl)
        obtain ⟨h1, h2, h3⟩ := h.slots slot hsome
        refine ⟨h1, h2, ?_⟩
        dsimp only
        rw [update_self]
        cases slot with
        | stream i => exact h3
        | channel i => exact ⟨h3.1, h3.2.1, fun t ht => h3.2.2 t ((List.mem_filter.mp ht).1)⟩
      · exact (h.slots slot).frame (update_of_ne hslot ..) rfl id
          (by cases slot <;> exact id)

/-! ## The host -/

theorem alert_fire (s : HostSlot) (h : σ.Alert slot) : (σ.fire s).Alert slot := by
  unfold fire
  split
  · exact h
  · split_ifs
    · by_cases hs : slot = s
      · subst hs
        exact .inr (update_self ..)
      · simpa only [Alert, update_of_ne hs] using h
    · exact h

structure OnlyHost (σ σ' : HostWaits) : Prop where
  channels : σ'.channels = σ.channels
  streams : σ'.streams = σ.streams
  waiting : σ'.waiting = σ.waiting
  waiters : σ'.waiters = σ.waiters
  asleep : σ'.asleep = σ.asleep
  task : σ'.task = σ.task
  alert : ∀ slot, σ.Alert slot → σ'.Alert slot

theorem onlyHost_fire (σ : HostWaits) (s : HostSlot) : OnlyHost σ (σ.fire s) := by
  have halert : ∀ slot, σ.Alert slot → (σ.fire s).Alert slot := fun _ => alert_fire s
  unfold fire at halert ⊢
  split at halert
  · exact ⟨rfl, rfl, rfl, rfl, rfl, rfl, halert⟩
  · split_ifs at halert ⊢ with hresult
    · exact ⟨rfl, rfl, rfl, rfl, rfl, rfl, halert⟩
    · exact ⟨rfl, rfl, rfl, rfl, rfl, rfl, halert⟩

theorem SlotsSound.onlyHost (h : σ.SlotsSound) (ho : OnlyHost σ σ') : σ'.SlotsSound where
  queued thread slot := by rw [ho.asleep, ho.waiters]; exact h.queued thread slot
  slots slot := by
    refine (h.slots slot).frame (congrFun ho.waiters slot) (congrFun ho.waiting slot) ?_ ?_
    · rintro (halert | hscan)
      · exact .inl (ho.alert slot halert)
      · exact .inr (ho.task ▸ hscan)
    · cases slot with
      | channel i => simp only [Home, ho.channels, imp_self]
      | stream i => simp only [Home, ho.streams, imp_self]

theorem TaskSound.onlyHost (h : σ.TaskSound) (ho : OnlyHost σ σ') : σ'.TaskSound := by
  unfold TaskSound at h ⊢
  rw [ho.task]
  cases hk : σ.task <;> rw [hk] at h <;> dsimp only at h ⊢
  case channelArm => rwa [ho.asleep, ho.waiters, ho.channels]
  case streamArm => rwa [ho.asleep, ho.streams]
  case channelLook | channelBlock =>
    rw [ho.asleep, ho.waiters, ho.channels, ho.waiting]
    exact ⟨h.1, h.2.1, h.2.2.1, h.2.2.2.1, h.2.2.2.2.1, h.2.2.2.2.2.1, ho.alert _ h.2.2.2.2.2.2⟩
  case streamLook | streamBlock =>
    rw [ho.asleep, ho.streams, ho.waiting]
    exact ⟨h.1, h.2.1, h.2.2.1, ho.alert _ h.2.2.2⟩

section

variable (σ)

theorem onlyHost_publishChannel (i : Fin kernelVmHostChannelPageCount)
    (header : Option KernelPlatformHostChannelState) :
    OnlyHost σ (σ.publishChannel i header) := by
  obtain ⟨h1, h2, h3, h4, h5, h6, h7⟩ := onlyHost_fire
    { σ with channelHeader := update σ.channelHeader i header } (.channel i)
  exact ⟨h1, h2, h3, h4, h5, h6, h7⟩

theorem onlyHost_publishStream (i : Fin kernelAudioStreamMax)
    (header : Option KernelPlatformAudioStreamState) :
    OnlyHost σ (σ.publishStream i header) := by
  obtain ⟨h1, h2, h3, h4, h5, h6, h7⟩ := onlyHost_fire
    { σ with streamHeader := update σ.streamHeader i header } (.stream i)
  exact ⟨h1, h2, h3, h4, h5, h6, h7⟩

theorem onlyHost_arm (s : HostSlot) (position : UInt32) : OnlyHost σ (σ.arm s position) := by
  obtain ⟨h1, h2, h3, h4, h5, h6, h7⟩ := onlyHost_fire
    { σ with armed := update σ.armed s (some position) } s
  refine ⟨h1, h2, h3, h4, h5, h6, fun slot halert => h7 slot ?_⟩
  by_cases hs : slot = s
  · subst hs
    exact .inl (by simp only [update_self]; exact nofun)
  · simpa only [Alert, update_of_ne hs] using halert

theorem alert_arm (s : HostSlot) (position : UInt32) : (σ.arm s position).Alert s :=
  alert_fire s (.inl (by simp only [update_self]; exact nofun))

end

theorem SlotsSound.setTask (h : σ.SlotsSound)
    (htask : ∀ slot, σ.waiters slot ≠ [] → Unscanned σ.task slot →
      σ.Alert slot ∨ Unscanned task slot) : { σ with task := task }.SlotsSound where
  queued := h.queued
  slots slot := by
    intro hne
    obtain ⟨h1, h2, h3⟩ := h.slots slot hne
    refine ⟨h1, h2.elim .inl fun hscan => htask slot hne hscan, ?_⟩
    cases slot <;> exact h3

theorem SlotsSound.setTask_of_idle (h : σ.SlotsSound)
    (hidle : ∀ slot, ¬Unscanned σ.task slot) : { σ with task := task }.SlotsSound :=
  h.setTask fun slot _ hscan => absurd hscan (hidle slot)

structure Sound (σ : HostWaits) : Prop where
  slots : σ.SlotsSound
  task : σ.TaskSound

theorem Sound.onlyHost (h : σ.Sound) (ho : OnlyHost σ σ') : σ'.Sound :=
  ⟨h.slots.onlyHost ho, h.task.onlyHost ho⟩

theorem SlotsSound.owner_awake (h : σ.SlotsSound)
    (hthread : σ.asleep thread = none) (howner : (σ.channels i).threadId = thread) :
    σ.waiters (.channel i) = [] := by
  by_contra hne
  obtain ⟨-, -, hhome⟩ := h.slots _ hne
  obtain ⟨t, ht⟩ := List.exists_mem_of_ne_nil _ hne
  have hasleep := (h.queued t (.channel i)).mpr ht
  rw [(hhome.2.2 t ht).trans howner, hthread] at hasleep
  cases hasleep

end HostWaits

end Astra
