import AstraKernel.Proofs.HostWait

/-!
# Runs of the waits on the host

A step keeps what a sleeper relies on unless a refused wait clears the bit of a stream on which
another thread is asleep, or a scan passes a sleeper whose slot is disarmed again
(`HostWaits.Careful`).
-/

namespace Astra

open Function

namespace HostWaits

variable {σ : HostWaits}

variable {thread : HostCaller} {slot : HostSlot} {task : KernelTask} {process : UInt32}
  {address deadline now : ℕ}

theorem hostChannelSlot_spec
    {i : Fin kernelVmHostChannelPageCount} (h : σ.hostChannelSlot process thread address = some i) :
    (σ.channels i).active = true ∧ (σ.channels i).threadId = thread.id := by
  unfold hostChannelSlot at h
  split at h
  · cases h
  split at h
  · dsimp only at h
    split at h
    next hchannel =>
      cases h
      exact ⟨hchannel.1, hchannel.2.2.1⟩
    next => cases h
  · cases h

def Scanning : KernelTask → Prop
  | .scanChannels _ _ _ | .scanStreams _ _ _ => True
  | _ => False

theorem scanning_of_unscanned (h : Unscanned task slot) : Scanning task := by
  cases task
  case scanChannels | scanStreams => trivial
  all_goals cases slot <;> exact h

theorem not_unscanned (h : σ.task = task) (hs : ¬Scanning task)
    (slot : HostSlot) : ¬Unscanned σ.task slot :=
  fun hscan => hs (scanning_of_unscanned (h ▸ hscan))

theorem taskSound_of_idle (h : σ.task = .idle) : σ.TaskSound := by
  unfold TaskSound
  rw [h]
  trivial

theorem SlotsSound.sound_of_idle (h : σ.SlotsSound) (hidle : σ.task = .idle) : σ.Sound :=
  ⟨h, taskSound_of_idle hidle⟩

/-! ## The calls -/

theorem hostChannelWait_sound {consumer : UInt32} (h : σ.Sound) (hidle : σ.task = .idle)
    (hawake : σ.asleep thread.id = none) :
    (σ.hostChannelWait process thread address consumer now deadline).1.Sound := by
  unfold hostChannelWait
  split
  · exact h
  next i hi =>
  obtain ⟨hactive, howner⟩ := hostChannelSlot_spec hi
  have hempty := h.slots.owner_awake hawake howner
  split
  · exact h
  split
  · exact h
  dsimp only
  have hclear := h.slots.setChannel hempty { σ.channels i with waiting := false }
  split
  · exact hclear.sound_of_idle hidle
  split
  · exact hclear.sound_of_idle hidle
  refine ⟨hclear.setTask_of_idle (not_unscanned hidle id), hawake, hempty, ?_, ?_⟩
  · simpa [setChannel] using hactive
  · simpa [setChannel] using howner

theorem audioStreamWait_sound {i : Fin kernelAudioStreamMax} (h : σ.Sound) (hidle : σ.task = .idle)
    (hawake : σ.asleep thread.id = none) :
    (σ.audioStreamWait thread i now deadline).1.Sound := by
  unfold audioStreamWait
  split
  · exact h
  next hopen =>
  split
  · exact h
  split
  · exact h
  exact ⟨h.slots.setTask_of_idle (not_unscanned hidle id), hawake, not_not.mp hopen⟩

theorem irqService_sound (h : σ.Sound) : σ.irqService.Sound := by
  refine ⟨⟨h.slots.queued, fun slot hne => ?_⟩, trivial⟩
  obtain ⟨h1, -, h3⟩ := h.slots.slots slot hne
  refine ⟨h1, .inr ?_, ?_⟩
  · cases slot with
    | channel i => exact Nat.zero_le _
    | stream i => trivial
  · cases slot <;> exact h3

section

variable (h : σ.SlotsSound)
include h

variable (i : Fin kernelAudioStreamMax)

theorem audioStreamEnd_slots :
    (σ.audioStreamEnd i).SlotsSound ∧ (σ.audioStreamEnd i).task = σ.task ∧
      (σ.audioStreamEnd i).waiters (.stream i) = [] := by
  unfold audioStreamEnd
  split
  next hstate =>
    refine ⟨h, rfl, ?_⟩
    by_contra hne
    exact hstate (h.slots _ hne).2.2
  next =>
    refine ⟨?_, rfl, update_self ..⟩
    -- waking first makes no difference
    have hwoken := (h.wakeAll (.stream i))
    have hset := hwoken.setStream (waiters_wakeAll σ (.stream i))
      { σ.streams i with state := .dead }
    exact hset.unmark (waiters_wakeAll σ (.stream i))

theorem audioStreamRelease_slots :
    (σ.audioStreamRelease i).SlotsSound ∧ (σ.audioStreamRelease i).task = σ.task := by
  unfold audioStreamRelease
  split
  · exact ⟨h, rfl⟩
  · obtain ⟨hend, htask, hempty⟩ := audioStreamEnd_slots h i
    have hset := hend.setStream hempty ⟨.free, 0, 0⟩
    rw [initQueue_of_empty (σ := (σ.audioStreamEnd i).setStream i ⟨.free, 0, 0⟩) hempty]
    exact ⟨hset, htask⟩

theorem audioStreamOpen_slots (generation bufferCount : UInt32) :
    (σ.audioStreamOpen i generation bufferCount).SlotsSound ∧
      (σ.audioStreamOpen i generation bufferCount).task = σ.task := by
  unfold audioStreamOpen
  split
  next hfree =>
    have hempty : σ.waiters (.stream i) = [] := by
      by_contra hne
      have hopen : (σ.streams i).state = .opened := (h.slots _ hne).2.2
      rw [hfree] at hopen
      cases hopen
    rw [initQueue_of_empty hempty]
    exact ⟨h.setStream hempty _, rfl⟩
  · exact ⟨h, rfl⟩

theorem wakeOwner_slots (i : Fin kernelVmHostChannelPageCount) :
    (σ.wakeOwner i).SlotsSound ∧ (σ.wakeOwner i).task = σ.task ∧
      (σ.wakeOwner i).waiters (.channel i) = [] := by
  unfold wakeOwner
  split
  · exact ⟨(h.wakeAll _).setChannel (waiters_wakeAll _ _) _, rfl, waiters_wakeAll _ _⟩
  next hwaiting =>
    refine ⟨h, rfl, ?_⟩
    by_contra hne
    exact hwaiting (h.slots _ hne).2.2.2.1

theorem hostChannelKill_slots (i : Fin kernelVmHostChannelPageCount) :
    (σ.hostChannelKill i).SlotsSound ∧ (σ.hostChannelKill i).task = σ.task := by
  unfold hostChannelKill
  split
  · exact ⟨h, rfl⟩
  · obtain ⟨hwoken, htask, hempty⟩ := wakeOwner_slots h i
    exact ⟨hwoken.setChannel hempty _, htask⟩

theorem hostChannelCloseSlot_slots (process : UInt32) (i : Fin kernelVmHostChannelPageCount) :
    (σ.hostChannelCloseSlot process i).SlotsSound ∧
      (σ.hostChannelCloseSlot process i).task = σ.task := by
  unfold hostChannelCloseSlot
  split
  · exact ⟨h, rfl⟩
  split
  · exact ⟨h, rfl⟩
  · obtain ⟨hwoken, htask, hempty⟩ := wakeOwner_slots h i
    have hset := hwoken.setChannel hempty .zero
    rw [initQueue_of_empty (σ := (σ.wakeOwner i).setChannel i .zero) hempty]
    exact ⟨hset, htask⟩

theorem hostChannelOpen_slots (i : Fin kernelVmHostChannelPageCount) (thread : HostCaller) :
    (σ.hostChannelOpen i thread).SlotsSound ∧ (σ.hostChannelOpen i thread).task = σ.task := by
  unfold hostChannelOpen
  split
  · exact ⟨h, rfl⟩
  next hactive =>
    have hempty : σ.waiters (.channel i) = [] := by
      by_contra hne
      exact hactive (h.slots _ hne).2.2.1
    rw [initQueue_of_empty hempty]
    exact ⟨h.setChannel hempty _, rfl⟩

end

theorem expire_task (σ : HostWaits) (thread : UInt32) : (σ.expire thread).task = σ.task := by
  unfold expire
  split <;> rfl

theorem begin_sound {c : HostCall} (h : σ.Sound) (hidle : σ.task = .idle) (hc : c.Possible σ) :
    (σ.begin c).Sound := by
  have hquiet : ∀ {σ' : HostWaits}, σ'.SlotsSound ∧ σ'.task = σ.task → σ'.Sound :=
    fun hs => hs.1.sound_of_idle (hs.2.trans hidle)
  cases c with
  | channelWait process thread address consumer now deadline =>
    exact hostChannelWait_sound h hidle hc
  | streamWait thread i now deadline => exact audioStreamWait_sound h hidle hc
  | irqService => exact irqService_sound h
  | streamEnd i =>
    obtain ⟨hs, htask, -⟩ := audioStreamEnd_slots h.slots i
    exact hquiet ⟨hs, htask⟩
  | streamRelease i => exact hquiet (audioStreamRelease_slots h.slots i)
  | streamOpen i generation bufferCount => exact hquiet (audioStreamOpen_slots h.slots i _ _)
  | channelKill i => exact hquiet (hostChannelKill_slots h.slots i)
  | channelClose process i => exact hquiet (hostChannelCloseSlot_slots h.slots process i)
  | channelOpen i thread => exact hquiet (hostChannelOpen_slots h.slots i thread)
  | expire thread => exact hquiet ⟨h.slots.expire thread, expire_task σ thread⟩

/-! ## Going on -/

/-- A refused wait leaves no sleeper of the stream behind, and a scan that does not end a sleeper's
wait leaves its slot armed. -/
def Careful (σ : HostWaits) (answer : KernelThreadStatus) : Prop :=
  match σ.task with
  | .streamBlock _ i => answer = .ok ∨ σ.waiters (.stream i) = []
  | .scanChannels i _ _ => ∀ h : i < kernelVmHostChannelPageCount,
    σ.waiters (.channel ⟨i, h⟩) ≠ [] → σ.result (.channel ⟨i, h⟩) = none →
      σ.armed (.channel ⟨i, h⟩) ≠ none
  | .scanStreams i _ _ => ∀ h : i < kernelAudioStreamMax,
    σ.waiters (.stream ⟨i, h⟩) ≠ [] → σ.result (.stream ⟨i, h⟩) = none →
      σ.armed (.stream ⟨i, h⟩) ≠ none
  | _ => True

/-- A scanned slot: all are sound, the task is the same, and on the slot itself a sleeper is left
only where the condition does not hold. -/
structure ScanSound (σ σ' : HostWaits) (slot : HostSlot) : Prop where
  slots : σ'.SlotsSound
  task : σ'.task = σ.task
  others : ∀ s, s ≠ slot → σ'.waiters s = σ.waiters s
  left : σ'.waiters slot ≠ [] → σ.waiters slot ≠ [] ∧ σ.result slot = none ∧ σ' = σ

theorem scanChannel_sound (h : σ.SlotsSound) (i : Fin kernelVmHostChannelPageCount) (woken : ℕ)
    (valid : Bool) : ScanSound σ (σ.scanChannel i woken valid).1 (.channel i) := by
  unfold scanChannel
  by_cases hbit : σ.waiting (.channel i) = true
  · rw [if_neg (not_not.mpr hbit)]
    split
    · rename_i hout
      have hempty : σ.waiters (.channel i) = [] := by
        by_contra hne
        obtain ⟨-, -, hactive, hwaiting, -⟩ := h.slots _ hne
        exact hout.elim (· hactive) (· hwaiting)
      exact ⟨h.unmark hempty, rfl, fun _ _ => rfl, fun hne => absurd hempty hne⟩
    · split
      next hresult => exact ⟨h, rfl, fun _ _ => rfl, fun hne => ⟨hne, hresult, rfl⟩⟩
      next =>
        have hset := (h.wakeAll (.channel i)).setChannel (waiters_wakeAll σ (.channel i))
          { σ.channels i with waiting := false }
        refine ⟨hset.unmark (waiters_wakeAll σ (.channel i)), rfl, fun s hs => ?_, fun hne => ?_⟩
        · exact update_of_ne hs ..
        · exact absurd (waiters_wakeAll σ (.channel i)) hne
  · rw [if_pos hbit]
    have hempty : σ.waiters (.channel i) = [] := by
      by_contra hne
      exact hbit (h.slots _ hne).1
    exact ⟨h, rfl, fun _ _ => rfl, fun hne => absurd hempty hne⟩

theorem scanStream_sound (h : σ.SlotsSound) (i : Fin kernelAudioStreamMax) (woken : ℕ)
    (valid : Bool) : ScanSound σ (σ.scanStream i woken valid).1 (.stream i) := by
  unfold scanStream
  by_cases hbit : σ.waiting (.stream i) = true
  · rw [if_neg (not_not.mpr hbit)]
    split
    · rename_i hout
      have hempty : σ.waiters (.stream i) = [] := by
        by_contra hne
        exact hout.elim (· (h.slots _ hne).2.2) (hne <| List.length_eq_zero_iff.mp ·)
      exact ⟨h.unmark hempty, rfl, fun _ _ => rfl, fun hne => absurd hempty hne⟩
    · split
      next hresult => exact ⟨h, rfl, fun _ _ => rfl, fun hne => ⟨hne, hresult, rfl⟩⟩
      next =>
        refine ⟨(h.wakeAll (.stream i)).unmark (waiters_wakeAll σ (.stream i)), rfl,
          fun s hs => update_of_ne hs .., fun hne => ?_⟩
        exact absurd (waiters_wakeAll σ (.stream i)) hne
  · rw [if_pos hbit]
    have hempty : σ.waiters (.stream i) = [] := by
      by_contra hne
      exact hbit (h.slots _ hne).1
    exact ⟨h, rfl, fun _ _ => rfl, fun hne => absurd hempty hne⟩

theorem ScanSound.next {σ' : HostWaits} (hs : ScanSound σ σ' slot)
    (hcareful : σ.waiters slot ≠ [] → σ.result slot = none → σ.armed slot ≠ none)
    (hnext : ∀ s, s ≠ slot → Unscanned σ.task s → Unscanned task s) :
    { σ' with task := task }.SlotsSound := by
  refine hs.slots.setTask fun s hne hscan => ?_
  by_cases hslot : s = slot
  · subst hslot
    obtain ⟨hwas, hresult, rfl⟩ := hs.left hne
    exact .inl (.inl (hcareful hwas hresult))
  · exact .inr (hnext s hslot (hs.task ▸ hscan))

theorem goOn_sound {answer : KernelThreadStatus} (h : σ.Sound) (hc : σ.Careful answer) :
    (σ.goOn answer).1.Sound := by
  have htask := h.task
  unfold Careful at hc
  unfold TaskSound at htask
  unfold goOn
  cases hk : σ.task <;> rw [hk] at htask hc <;> dsimp only at htask hc ⊢
  case idle => exact h
  case channelArm thread i consumer =>
    obtain ⟨hawake, hempty, hactive, howner⟩ := htask
    generalize hchannel : { σ.channels i with expectedConsumer := consumer, waiting := true } =
      channel
    have hmarked := (h.slots.setChannel hempty channel).mark (.channel i)
    have ho := onlyHost_arm ((σ.setChannel i channel).setWaiting (.channel i) true) (.channel i)
      consumer
    have hat : (((σ.setChannel i channel).setWaiting (.channel i) true).arm (.channel i)
        consumer).channels i = channel := by
      rw [ho.channels]
      exact update_self ..
    refine ⟨(hmarked.onlyHost ho).setTask_of_idle fun s => ?_, ?_⟩
    · rw [ho.task]
      exact not_unscanned hk id s
    · refine ⟨?_, ?_, ?_, ?_, ?_, ?_, alert_arm ..⟩
      · exact (congrFun ho.asleep _).trans hawake
      · exact (congrFun ho.waiters _).trans hempty
      · exact (congrArg _ hat).trans (hchannel ▸ hactive)
      · exact (congrArg _ hat).trans (hchannel ▸ howner)
      · exact (congrArg _ hat).trans (hchannel ▸ rfl)
      · exact (congrFun ho.waiting _).trans (update_self ..)
  case channelLook thread i consumer =>
    have hempty := htask.2.1
    split
    · exact (((h.slots.setChannel hempty _).disarm hempty).setTask_of_idle (not_unscanned hk id)).sound_of_idle rfl
    · exact ⟨h.slots.setTask_of_idle (not_unscanned hk id), htask⟩
  case channelBlock thread i consumer =>
    obtain ⟨hawake, hempty, hactive, howner, hwaiting, hmarked, halert⟩ := htask
    split
    · refine ((h.slots.block hawake hmarked halert ?_).setTask_of_idle (not_unscanned hk id)).sound_of_idle rfl
      rw [hempty]
      refine ⟨hactive, hwaiting, fun t ht => ?_⟩
      exact (List.mem_singleton.mp ht).trans howner.symm
    · exact (((h.slots.setChannel hempty _).disarm hempty).setTask_of_idle (not_unscanned hk id)).sound_of_idle rfl
  case streamArm thread i =>
    obtain ⟨hawake, hopen⟩ := htask
    have ho := onlyHost_arm (σ.setWaiting (.stream i) true) (.stream i) 0
    refine ⟨((h.slots.mark (.stream i)).onlyHost ho).setTask_of_idle fun s => ?_, ?_⟩
    · rw [ho.task]
      exact not_unscanned hk id s
    · refine ⟨?_, ?_, ?_, alert_arm ..⟩
      · exact (congrFun ho.asleep _).trans hawake
      · exact (congrArg _ (congrFun ho.streams i)).trans hopen
      · exact (congrFun ho.waiting _).trans (update_self ..)
  case streamLook thread i =>
    split
    · exact (h.slots.setTask_of_idle (not_unscanned hk id)).sound_of_idle rfl
    · exact ⟨h.slots.setTask_of_idle (not_unscanned hk id), htask⟩
  case streamBlock thread i =>
    obtain ⟨hawake, hopen, hmarked, halert⟩ := htask
    split
    · exact ((h.slots.block hawake hmarked halert hopen).setTask_of_idle (not_unscanned hk id)).sound_of_idle rfl
    next hrefused =>
      -- nobody else is asleep on the stream whose bit is cleared
      have hempty := hc.resolve_left hrefused
      exact ((h.slots.unmark hempty).setTask_of_idle (not_unscanned hk id)).sound_of_idle rfl
  case scanChannels i woken valid =>
    split
    next hi =>
      have hscan := scanChannel_sound h.slots ⟨i, hi⟩ woken valid
      refine ⟨hscan.next (hc hi) fun s hs hscan => ?_, trivial⟩
      rw [hk] at hscan
      cases s with
      | channel j =>
        have hle : i ≤ j := hscan
        have hne : (j : ℕ) ≠ i := fun heq => hs (congrArg HostSlot.channel (Fin.ext heq))
        exact Nat.lt_of_le_of_ne hle hne.symm
      | stream j => trivial
    next hi =>
      refine ⟨h.slots.setTask fun s _ hscan => .inr ?_, trivial⟩
      rw [hk] at hscan
      cases s with
      | channel j =>
        have hle : i ≤ j := hscan
        exact absurd (Nat.lt_of_le_of_lt hle j.isLt) hi
      | stream j => exact Nat.zero_le _
  case scanStreams i woken valid =>
    split
    next hi =>
      have hscan := scanStream_sound h.slots ⟨i, hi⟩ woken valid
      refine ⟨hscan.next (hc hi) fun s hs hscan => ?_, trivial⟩
      rw [hk] at hscan
      cases s with
      | channel j => exact hscan
      | stream j =>
        have hle : i ≤ j := hscan
        have hne : (j : ℕ) ≠ i := fun heq => hs (congrArg HostSlot.stream (Fin.ext heq))
        exact Nat.lt_of_le_of_ne hle hne.symm
    next hi =>
      refine ⟨h.slots.setTask fun s _ hscan => ?_, trivial⟩
      rw [hk] at hscan
      cases s with
      | channel j => exact absurd hscan id
      | stream j =>
        have hle : i ≤ j := hscan
        exact absurd (Nat.lt_of_le_of_lt hle j.isLt) hi

/-! ## Runs -/

def CarefulMove (σ : HostWaits) : HostMove → Prop
  | .goOn answer => σ.Careful answer
  | _ => True

def CarefulStep (σ σ' : HostWaits) : Prop :=
  ∃ m : HostMove, m.Possible σ ∧ σ.CarefulMove m ∧ σ.move m = σ'

theorem move_sound {m : HostMove} (h : σ.Sound) (hm : m.Possible σ) (hc : σ.CarefulMove m) :
    (σ.move m).Sound := by
  cases m with
  | call c => exact begin_sound h hm.1 hm.2
  | goOn answer => exact goOn_sound h hc
  | publishChannel i header => exact h.onlyHost (onlyHost_publishChannel σ i header)
  | publishStream i header => exact h.onlyHost (onlyHost_publishStream σ i header)

theorem init_sound : init.Sound where
  slots :=
    { queued := fun _ _ => ⟨nofun, nofun⟩
      slots := fun _ => sleepSound_of_empty rfl }
  task := trivial

theorem run_sound (h : Relation.ReflTransGen CarefulStep init σ) : σ.Sound := by
  induction h with
  | refl => exact init_sound
  | tail _ hstep ih =>
    obtain ⟨m, hm, hc, rfl⟩ := hstep
    exact move_sound ih hm hc

/-- A thread asleep on a slot has its bit set, and where its wait is over the slot is armed, its
interrupt is pending, or the scan has still to come to it. -/
theorem sleeper_not_lost (h : Relation.ReflTransGen CarefulStep init σ) (thread : UInt32)
    (slot : HostSlot) (hasleep : σ.asleep thread = some slot) :
    σ.waiting slot = true ∧ ((σ.result slot).isSome →
      σ.armed slot ≠ none ∨ σ.raised slot = true ∨ Unscanned σ.task slot) := by
  obtain ⟨⟨hqueued, hslots⟩, -⟩ := run_sound h
  have hne : σ.waiters slot ≠ [] := List.ne_nil_of_mem ((hqueued thread slot).mp hasleep)
  obtain ⟨hwaiting, hawaited, -⟩ := hslots slot hne
  exact ⟨hwaiting, fun _ => or_assoc.mp hawaited⟩

/-! ## The runs of one stream -/

instance (σ : HostWaits) (answer : KernelThreadStatus) : Decidable (σ.Careful answer) := by
  unfold Careful
  split <;> infer_instance

instance (σ : HostWaits) : ∀ m : HostMove, Decidable (σ.CarefulMove m)
  | .goOn answer => inferInstanceAs (Decidable (σ.Careful answer))
  | .call _ | .publishChannel _ _ | .publishStream _ _ => .isTrue trivial

def followCarefully (σ : HostWaits) : List HostMove → Option HostWaits
  | [] => some σ
  | m :: moves =>
    if m.Possible σ ∧ σ.CarefulMove m then (σ.move m).followCarefully moves else none

theorem reach_followCarefully :
    ∀ {moves : List HostMove} {σ σ' : HostWaits}, σ.followCarefully moves = some σ' →
      Relation.ReflTransGen CarefulStep σ σ'
  | [], _, _, h => Option.some.inj h ▸ .refl
  | m :: moves, σ, σ', h => by
    rw [followCarefully] at h
    split at h
    next hm => exact .head ⟨m, hm.1, hm.2, rfl⟩ (reach_followCarefully h)
    next => cases h

def streamHeaderOf (consumed queued : UInt32) : Option KernelPlatformAudioStreamState :=
  some ⟨1, queued, consumed, 0⟩

/-- A stream of four buffers, all queued, and a thread that goes to sleep on it. -/
def sleeperMoves : List HostMove :=
  [.call (.streamOpen 0 1 4), .publishStream 0 (streamHeaderOf 0 4),
    .call (.streamWait ⟨1, 7, 1⟩ 0 0 100), .goOn .ok, .goOn .ok, .goOn .ok]

/-- The sleeper, where the host has consumed a buffer. -/
theorem sleeper_not_lost_consumed :
    ∃ σ : HostWaits, σ.asleep 1 = some (.stream 0) ∧ σ.result (.stream 0) = some 0 ∧
      σ.waiting (.stream 0) = true ∧ ((σ.result (.stream 0)).isSome →
        σ.armed (.stream 0) ≠ none ∨ σ.raised (.stream 0) = true ∨
          Unscanned σ.task (.stream 0)) := by
  have hrun : ((init.followCarefully
      (sleeperMoves ++ [.publishStream 0 (streamHeaderOf 1 4)])).map fun σ =>
        (σ.asleep 1, σ.result (.stream 0))) = some (some (.stream 0), some 0) := by
    decide +kernel
  obtain ⟨σ, hσ, heq⟩ := Option.map_eq_some_iff.mp hrun
  obtain ⟨hasleep, hresult⟩ := Prod.mk.inj heq
  exact ⟨σ, hasleep, hresult,
    sleeper_not_lost (reach_followCarefully hσ) 1 (.stream 0) hasleep⟩

/-- One interrupt service, from the acknowledgement to the end of the scan. -/
def serviceMoves : List HostMove := .call .irqService :: List.replicate 290 (.goOn .ok)

/-- The wait of a second thread is refused, and the bit of the sleeper is gone: the service that
the next completion calls finds nobody. Or the program queues again, before the service, the buffer
whose completion raised the interrupt: the scan leaves the slot disarmed, and the next completion
raises nothing. -/
theorem sleeper_lost :
    ((init.follow (sleeperMoves ++ [.call (.streamWait ⟨2, 7, 2⟩ 0 0 100), .goOn .ok, .goOn .ok,
      .goOn .outOfMemory])).map fun σ => (σ.asleep 1, σ.waiting (.stream 0))) =
        some (some (.stream 0), false) ∧
    ((init.follow (sleeperMoves ++ [.call (.streamWait ⟨2, 7, 2⟩ 0 0 100), .goOn .ok, .goOn .ok,
      .goOn .outOfMemory, .publishStream 0 (streamHeaderOf 1 4)] ++ serviceMoves)).map fun σ =>
        (σ.asleep 1, σ.result (.stream 0), σ.armed (.stream 0), σ.raised (.stream 0), σ.task)) =
        some (some (.stream 0), some 0, none, false, .idle) ∧
    ((init.follow (sleeperMoves ++ [.publishStream 0 (streamHeaderOf 1 4),
      .publishStream 0 (streamHeaderOf 1 5)] ++ serviceMoves ++
      [.publishStream 0 (streamHeaderOf 2 5)])).map fun σ =>
        (σ.asleep 1, σ.result (.stream 0), σ.armed (.stream 0), σ.raised (.stream 0), σ.task)) =
        some (some (.stream 0), some 0, none, false, .idle) := by
  refine ⟨?_, ?_, ?_⟩
  · decide +kernel
  · decide +kernel
  · decide +kernel

end HostWaits

end Astra
