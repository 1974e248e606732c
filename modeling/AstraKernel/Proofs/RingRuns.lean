import AstraKernel.Proofs.RingStream

/-!
# Runs of the rings

In every run of sane calls the rings stay sound and every kernel-copy ring carries its stream: no
thread waits for what is there or will never come, and the bytes come out as they went in.
-/

namespace Astra

open Finset Function

section

variable {s s' : RingState} {n a : ℕ} {ev : RingEvent}

section

variable (h : RingSound s)
include h

theorem RingSound.opened (hc : (s.area a).childReferences = 0)
    (creator generation : ℕ) (byteSize : BitVec 32) :
    RingQuiet s (s.setArea a fun _ => newRingArea creator generation byteSize) := by
  have hnone : ∀ n, (s.ring n).state ≠ .free → (s.ring n).area ≠ a := by
    rintro n hb rfl
    exact h.children_ne hb hc
  have harea : ∀ n, (s.ring n).state ≠ .free →
      (s.setArea a fun _ => newRingArea creator generation byteSize).area (s.ring n).area
        = s.area (s.ring n).area := fun n hb => update_of_ne (hnone n hb) _ _
  refine ⟨{ h with
    fits := fun n hb => ?_
    children := fun b => ?_ }, fun n hb _ => ?_⟩
  · change RingFits ((s.setArea a _).area (s.ring n).area).byteSize (s.ring n)
    rw [harea n hb]
    exact h.fits n hb
  · rcases eq_or_ne b a with rfl | hne
    · have hcard := h.children b
      rw [hc] at hcard
      simp only [RingState.setArea, update_self, newRingArea]
      exact hcard
    · simp only [RingState.setArea, update_of_ne hne]
      exact h.children b
  · refine ⟨hb, rfl, .refl _, rfl, rfl, fun i _ => ?_⟩
    rw [ringByte, ringByte]
    exact congrArg (fun area : RingArea => area.bytes _) (harea n hb)

theorem RingSound.areaClosed (a : ℕ) :
    RingQuiet s (s.setArea a fun area => { area with live := false }) := by
  have harea : ∀ b, ((s.setArea a fun area => { area with live := false }).area b).byteSize
        = (s.area b).byteSize ∧
      ((s.setArea a fun area => { area with live := false }).area b).childReferences
        = (s.area b).childReferences ∧
      ((s.setArea a fun area => { area with live := false }).area b).bytes = (s.area b).bytes := by
    intro b
    rcases eq_or_ne b a with rfl | hne
    · simp [RingState.setArea]
    · simp [RingState.setArea, update_of_ne hne]
  refine ⟨{ h with
    fits := fun n hb => (harea _).1.symm ▸ h.fits n hb
    children := fun b => (harea b).2.1.trans (h.children b) }, fun n hb _ => ?_⟩
  refine ⟨hb, rfl, .refl _, rfl, rfl, fun i _ => ?_⟩
  rw [ringByte, ringByte]
  exact congrFun (harea _).2.2 _

theorem RingSound.stored {i : ℕ} {value : BitVec 8} (hs : RingSane s (.areaStored a i value)) :
    RingQuiet s (s.setArea a fun area => { area with bytes := update area.bytes i value }) := by
  have hw : Rewritten s (s.setArea a fun area => { area with bytes := update area.bytes i value }) a
      i (i + 1) := by
    refine ⟨⟨update (s.area a).bytes i value, by simp [RingState.setArea]⟩, fun j hj => ?_⟩
    simp only [RingState.setArea, update_self]
    exact update_of_ne (by omega) _ _
  refine ⟨h.rewritten hw, fun n => hw.unmoved h fun hb ha => ?_⟩
  rcases hs n hb ha with h1 | h1
  · exact .inl (by omega)
  · exact .inr (by omega)

theorem ringStep (hs : RingSane s ev) {k : ℕ → RingStream} (hk : ∀ n, Following s n (k n)) :
    RingSound (s.step ev) ∧ ∀ n, Following (s.step ev) n (s.follow n (k n) ev) := by
  have hquiet : ∀ {s'}, RingQuiet s s' → RingSound s' ∧ ∀ n, Following s' n (k n) :=
    fun hq => ⟨hq.sound, fun n => (hk n).unmoved (hq.unmoved n)⟩
  have hone : ∀ {s'} {m : ℕ} {f : ℕ → RingStream}, RingSound s' →
      (∀ n, n ≠ m → Unmoved s s' n) → Following s' m (f m) →
      RingSound s' ∧ ∀ n, Following s' n (if m = n then f n else k n) := by
    intro s' m f h1 h2 h3
    refine ⟨h1, fun n => ?_⟩
    split_ifs with he
    · exact he ▸ h3
    · exact (hk n).unmoved (h2 n fun h4 => he h4.symm)
  cases ev with
  | thread op =>
    obtain ⟨hsane, hoff⟩ := hs
    exact hquiet (h.withPool (step_effect h.healthy op hsane).1 fun n hn endpoint t ht =>
      step_waits h.healthy hsane (hoff n hn endpoint) ht)
  | create owner area offset elementSize capacity flags grant =>
    obtain ⟨status, s', slot, he, hsound, hu, hnew⟩ :=
      kernelRingCreateFlagged_spec h owner area offset elementSize capacity flags grant
    simp only [RingState.step, RingState.follow, he]
    refine ⟨hsound, fun n => ?_⟩
    split_ifs with hslot
    · obtain ⟨-, generation, areaGeneration, totalSize, hring⟩ := hnew n hslot
      intro _ _
      refine ⟨?_, ?_, ?_, Nat.le_refl _, Nat.zero_le _, rfl, fun i v hv => by
        simp [RingStream.empty] at hv⟩
      all_goals
        rw [hring]
        rfl
    · exact (hk n).unmoved (hu n hslot)
  | abandon n => exact hquiet (kernelRingAbandonUnpublished_quiet h n)
  | retain n endpoint => exact hquiet (kernelRingHandleRetain_quiet h n endpoint)
  | release n endpoint => exact hquiet (kernelRingHandleRelease_quiet h n endpoint)
  | notify n endpoint position flags =>
    exact hquiet (kernelRingNotify_quiet h n endpoint position flags)
  | waitSet t members multiple now deadline rowMemory heapMemory => exact hquiet (waitRingSet_quiet h hs)
  | consume m count grant =>
    obtain ⟨status, s', woken, he, hsound, hu, hf⟩ := kernelRingCopyConsume_spec h (hk m) count grant
    simp only [RingState.step, RingState.follow, he]
    exact hone (f := fun n => consumedBy s n (k n) count grant) hsound hu hf
  | writeAt m offset source length grant =>
    obtain ⟨status, s', he, hsound, -, hu, hf⟩ :=
      kernelRingCopyWriteAt_spec h (hk m) offset source length grant
    simp only [RingState.step, RingState.follow, he]
    exact hone (f := fun n => stagedBy s n (k n) offset source length grant) hsound hu hf
  | writeCommit m count grant =>
    obtain ⟨status, s', woken, he, hsound, hu, hf, -⟩ :=
      kernelRingCopyWriteCommit_spec h (hk m) count grant
    simp only [RingState.step, RingState.follow, he]
    exact hone (f := fun n => committedBy s n (k n) count grant) hsound hu hf
  | write m source length atomic grant publish =>
    obtain ⟨status, s', written, woken, he, hsound, hu, hf, -⟩ :=
      kernelRingCopyWrite_spec h (hk m) source length atomic grant publish
    simp only [RingState.step, RingState.follow, he]
    exact hone (f := fun n => writtenBy s n (k n) source length atomic grant publish) hsound hu hf
  | processDied processId => exact hquiet (kernelRingProcessDied_quiet h processId)
  | areaOpened a creator generation byteSize => exact hquiet (h.opened hs.2 creator generation byteSize)
  | areaClosed a => exact hquiet (h.areaClosed a)
  | areaStored a i value => exact hquiet (h.stored hs)

end

theorem ringRun : ∀ (evs : List RingEvent) {s : RingState} {k : ℕ → RingStream}, RingSound s →
    s.Along RingSane evs → (∀ n, Following s n (k n)) →
      RingSound (s.run evs) ∧ ∀ n, Following (s.run evs) n (s.followed n (k n) evs)
  | [], _, _, h, _, hk => ⟨h, hk⟩
  | ev :: evs, s, k, h, hs, hk => by
    obtain ⟨h1, h2⟩ := ringStep h hs.1 hk
    exact ringRun evs h1 hs.2 h2

/-- An area that is not there. -/
def noRingArea : RingArea := { newRingArea 0 0 0 with live := false }

/-- The pools as they are initialised, with no area. -/
def ringInit (audit : Bool) : RingState :=
  kernelRingPoolInit (kernelThreadPoolInit audit) fun _ => noRingArea

theorem ringSound_init (audit : Bool) : RingSound (ringInit audit) := by
  refine ⟨healthy_init audit, fun n hb => absurd rfl hb, fun n _ hd => by simp [ringInit,
    kernelRingPoolInit] at hd, Nat.zero_lt_succ _, fun n hb => absurd rfl hb,
    fun n m hb => absurd rfl hb, ?_, ?_, fun a => ?_, fun n _ endpoint t ht => ?_⟩
  · exact (card_eq_zero.2 (filter_eq_empty_iff.2 fun n _ h1 => h1 rfl)).symm
  · refine (card_eq_zero.2 (filter_eq_empty_iff.2 fun n _ h1 => ?_)).symm
    simp [ringInit, kernelRingPoolInit, freeRingRecord] at h1
  · exact (card_eq_zero.2 (filter_eq_empty_iff.2 fun n _ h1 => h1.1 rfl)).symm
  · exact absurd ht.1 (by simp [ringInit, kernelRingPoolInit, kernelThreadPoolInit, validThread])

def ringAfter (audit : Bool) (evs : List RingEvent) : RingState :=
  (ringInit audit).run evs

/-- What has gone through the ring in a slot since it was created. -/
def streamAfter (audit : Bool) (evs : List RingEvent) (n : ℕ) : RingStream :=
  (ringInit audit).followed n .empty evs

theorem ringAfter_sound {audit : Bool} {evs : List RingEvent}
    (hs : (ringInit audit).Along RingSane evs) :
    RingSound (ringAfter audit evs) ∧
      ∀ n, Following (ringAfter audit evs) n (streamAfter audit evs n) :=
  ringRun (k := fun _ => .empty) evs (ringSound_init audit) hs fun _ h1 => absurd rfl h1

/-- A kernel-copy ring is a first-in first-out stream of bytes: what was consumed and then what is in
it, which a peek reads from any offset, is what was committed. A write commits the bytes it says it
has written, and an atomic one all of them or none. -/
structure RingFifo (s : RingState) (n : ℕ) (k : RingStream) : Prop where
  used : ringUsed (s.ring n) ≤ (s.ring n).capacity
  order : k.consumed <+: k.committed
  held : k.consumed.length + (ringUsed (s.ring n)).toNat = k.committed.length
  peek : ∀ offset capacity sync, (kernelRingCopyPeek s n offset capacity sync).1 = .ok →
    (kernelRingCopyPeek s n offset capacity sync).2
      = ((k.committed.drop k.consumed.length).drop offset.toNat).take capacity.toNat
  peekable : (s.ring n).consumerReferences ≠ 0 → (s.area (s.ring n).area).live = true →
    ∀ offset capacity, capacity ≠ 0 → offset < ringUsed (s.ring n) →
      (kernelRingCopyPeek s n offset capacity true).1 = .ok
  written : ∀ source length atomic grant publish,
    (kernelRingCopyWrite s n source length atomic grant publish).2.2.1 ≤ length ∧
      (writtenBy s n k source length atomic grant publish).committed = k.committed
        ++ (List.range (kernelRingCopyWrite s n source length atomic grant publish).2.2.1.toNat).map
          source
  atomic : ∀ source length grant publish,
    (kernelRingCopyWrite s n source length true grant publish).2.2.1 = length ∨
      (kernelRingCopyWrite s n source length true grant publish).2.2.1 = 0 ∧
        ((kernelRingCopyWrite s n source length true grant publish).2.1.ring n).producerPosition
          = (s.ring n).producerPosition

/-- In every run of sane calls every kernel-copy ring is a stream. -/
theorem run_stream (audit : Bool) (evs : List RingEvent)
    (hs : (ringInit audit).Along RingSane evs) (n : ℕ)
    (hb : ((ringAfter audit evs).ring n).state ≠ .free)
    (hcopy : ((ringAfter audit evs).ring n).kernelCopy = true) :
    RingFifo (ringAfter audit evs) n (streamAfter audit evs n) := by
  obtain ⟨h, hk⟩ := ringAfter_sound hs
  have hf := hk n
  generalize ringAfter audit evs = s at *
  generalize streamAfter audit evs n = k at *
  have hstream := hf hb hcopy
  have hpeek := kernelRingCopyPeek_spec h hb hcopy hstream
  have hused := hstream.used (h.fits n hb)
  have horder := hstream.order
  refine ⟨(h.fits n hb).used, ⟨_, hstream.bytes.symm⟩, by omega, fun o c y => (hpeek o c).1 y,
    fun h1 h2 o c h3 h4 => (hpeek o c).2 h1 h2 h3 h4,
    fun source length atomic grant publish => ?_, fun source length grant publish => ?_⟩
  · obtain ⟨status, s', written, woken, he, -, -, -, hwrite, hok, hbad⟩ :=
      kernelRingCopyWrite_spec h hf source length atomic grant publish
    rw [he]
    refine ⟨?_, hwrite⟩
    by_cases hstatus : status = .ok
    · exact (hok hstatus).1
    · rw [(hbad hstatus).1]
      show (0 : BitVec 32) ≤ length
      bv_omega
  · obtain ⟨status, s', written, woken, he, -, -, -, -, hok, hbad⟩ :=
      kernelRingCopyWrite_spec h hf source length true grant publish
    rw [he]
    by_cases hstatus : status = .ok
    · exact .inl ((hok hstatus).2 rfl)
    · exact .inr (hbad hstatus)

/-- Six bytes go through a ring of four in three writes, the last of which goes past the buffer's end
and is cut short: it has room for three bytes of four. -/
def copiedRound : List RingEvent :=
  let grant : CopyGrant := ⟨true, 4, 4⟩
  let publish : PublishGrant := ⟨4, true⟩
  [.areaOpened 1 1 1 4096, .create 1 1 0 1 4 1 ⟨true, true, true, true, 64, true⟩,
    .write 0 (fun i => BitVec.ofNat 8 (10 + i)) 2 true grant publish,
    .write 0 (fun i => BitVec.ofNat 8 (20 + i)) 1 false grant publish, .consume 0 2 publish,
    .write 0 (fun i => BitVec.ofNat 8 (30 + i)) 4 true grant publish,
    .write 0 (fun i => BitVec.ofNat 8 (40 + i)) 4 false grant publish, .consume 0 1 publish]

theorem copiedRound_sane : (ringInit false).Along RingSane copiedRound := by
  simp [copiedRound, RingState.Along, RingSane, ringInit, kernelRingPoolInit, noRingArea, newRingArea]

theorem run_stream_wrapped :
    ((streamAfter false copiedRound 0).committed = [10, 11, 20, 40, 41, 42] ∧
      (streamAfter false copiedRound 0).consumed = [10, 11, 20]) ∧
      RingFifo (ringAfter false copiedRound) 0 (streamAfter false copiedRound 0) :=
  ⟨⟨by decide +kernel, by decide +kernel⟩,
    run_stream false copiedRound copiedRound_sane 0 (by decide +kernel) (by decide +kernel)⟩

/-- A position that an endpoint cannot be at: past the room there is, or past what there is. -/
def OutOfRange (r : KernelRing) (position : BitVec 32) : KernelRingEndpoint → Prop
  | .producer => r.capacity - ringUsed r < position - r.producerPosition
  | .consumer => ringUsed r < position - r.consumerPosition

instance (r : KernelRing) (position : BitVec 32) (endpoint : KernelRingEndpoint) :
    Decidable (OutOfRange r position endpoint) :=
  match endpoint with
  | .producer => inferInstanceAs (Decidable (_ < _))
  | .consumer => inferInstanceAs (Decidable (_ < _))

/-- An endpoint that may report a position: one of an open notify ring that has a consumer. -/
structure Reporting (r : KernelRing) (endpoint : KernelRingEndpoint) : Prop where
  opened : r.state = .open
  notify : r.kernelCopy = false
  held : r.references endpoint ≠ 0
  consumers : r.consumerReferences ≠ 0

/-- A ring that has failed: closing with `terminal` for both of its endpoints, and the rest of it as
it was. -/
def KernelRing.failed (r : KernelRing) (terminal : ℕ) : KernelRing :=
  { r with state := .closing, producerTerminal := terminal, consumerTerminal := terminal }

theorem maybeFree_referenced (s : RingState) (hc : (s.ring n).consumerReferences ≠ 0) :
    maybeFree s n = s := by
  unfold maybeFree
  rw [if_pos (.inr (.inr hc))]

theorem notifyFailed_spec (h : RingSound s) {endpoint : KernelRingEndpoint}
    (hr : Reporting (s.ring n) endpoint) :
    ∃ s' woken, notifyFailed s n = (⟨.ioError, none, woken⟩, s') ∧
      s'.ring = update s.ring n ((s.ring n).failed astraSyscallIoError) ∧
      WokeRing s.pool s'.pool n astraSyscallIoError := by
  obtain ⟨s', woken, he, -, hring, hw⟩ := failRing_spec h hr.notify hr.opened astraSyscallIoError
  have hc : (s'.ring n).consumerReferences ≠ 0 := by
    rw [hring, update_self]
    exact hr.consumers
  refine ⟨s', woken, ?_, hring, hw⟩
  rw [notifyFailed, he, maybeFree_referenced s' hc]

theorem kernelRingNotify_failed (h : RingSound s) {endpoint : KernelRingEndpoint}
    (hr : Reporting (s.ring n) endpoint) {position flags : BitVec 32}
    (hflags : flags &&& ~~~kernelRingNotifyCorrupt = 0)
    (hbad : flags &&& kernelRingNotifyCorrupt ≠ 0 ∨ OutOfRange (s.ring n) position endpoint) :
    kernelRingNotify s n endpoint position flags = notifyFailed s n := by
  have hb : (s.ring n).state ≠ .free := by simp [hr.opened]
  have hf := h.fits n hb
  have hgate : ¬ (¬ validRing s n ∨ (s.ring n).kernelCopy = true
      ∨ flags &&& ~~~kernelRingNotifyCorrupt ≠ 0) := by
    rintro (h1 | h1 | h1)
    · exact h1 (h.valid_iff.2 hb)
    · simp [hr.notify] at h1
    · exact h1 hflags
  unfold kernelRingNotify
  rw [if_neg hgate, if_neg (by simp [hr.opened])]
  by_cases hcorrupt : flags &&& kernelRingNotifyCorrupt ≠ 0
  · rw [if_pos hcorrupt]
  rw [if_neg hcorrupt, if_neg (BitVec.not_lt.2 hf.used)]
  have hout := hbad.resolve_left hcorrupt
  unfold notifyPosition
  cases endpoint with
  | producer =>
    have hp : (s.ring n).producerReferences ≠ 0 := hr.held
    change (s.ring n).capacity - ringUsed (s.ring n) < position - (s.ring n).producerPosition at hout
    dsimp only
    rw [if_neg hp, if_neg hr.consumers, if_pos hout]
  | consumer =>
    change ringUsed (s.ring n) < position - (s.ring n).consumerPosition at hout
    dsimp only
    rw [if_neg hr.consumers, if_pos hout]

/-- What keeps the waiters of a ring from being stranded: they wait for what the ring does not have
and its peer can still give, and a position that cannot be ends the waits of both endpoints. -/
structure RingWatched (s : RingState) (n : ℕ) : Prop where
  consumers : ∀ t, Waits s.pool t (consumerWaiters n) →
    (s.ring n).state = .open ∧ ringUsed (s.ring n) = 0 ∧ (s.ring n).producerReferences ≠ 0
  producers : ∀ t, Waits s.pool t (producerWaiters n) →
    (s.ring n).state = .open ∧ ringUsed (s.ring n) = (s.ring n).capacity ∧
      (s.ring n).producerReferences ≠ 0 ∧ (s.ring n).consumerReferences ≠ 0
  failed : ∀ endpoint position flags, Reporting (s.ring n) endpoint →
    flags &&& ~~~kernelRingNotifyCorrupt = 0 →
    flags &&& kernelRingNotifyCorrupt ≠ 0 ∨ OutOfRange (s.ring n) position endpoint →
    ∃ s' woken, kernelRingNotify s n endpoint position flags = (⟨.ioError, none, woken⟩, s') ∧
      s'.ring = update s.ring n ((s.ring n).failed astraSyscallIoError) ∧
      WokeRing s.pool s'.pool n astraSyscallIoError
  alone : (s.ring n).state = .open → (s.ring n).kernelCopy = false →
    (s.ring n).producerReferences ≠ 0 → (s.ring n).consumerReferences = 0 →
    ∀ position, kernelRingNotify s n .producer position 0 = (⟨.peerDead, none, 0⟩, s)
  copied : (s.ring n).kernelCopy = true → ∀ endpoint position flags,
    kernelRingNotify s n endpoint position flags = (⟨.invalidArgument, none, 0⟩, s)
  closing : (s.ring n).state = .closing → ∀ endpoint position flags, ∃ status,
    kernelRingNotify s n endpoint position flags = (⟨status, none, 0⟩, s)

theorem RingSound.watched (h : RingSound s) (hn : n < kernelRingMax) : RingWatched s n := by
  refine ⟨fun t ht => ?_, fun t ht => ?_, fun endpoint position flags hr hflags hbad => ?_,
    fun hopen hk hp hc position => ?_, fun hk endpoint position flags => ?_,
    fun hclosing endpoint position flags => ?_⟩
  · have hw : ConsumersWait (s.ring n) := h.waits n hn .consumer t ht
    exact ⟨hw.opened, hw.empty, hw.producers⟩
  · have hw : ProducersWait (s.ring n) := h.waits n hn .producer t ht
    exact ⟨hw.opened, hw.full, hw.producers, hw.consumers⟩
  · rw [kernelRingNotify_failed h hr hflags hbad]
    exact notifyFailed_spec h hr
  · have hb : (s.ring n).state ≠ .free := by simp [hopen]
    have hgate : ¬ (¬ validRing s n ∨ (s.ring n).kernelCopy = true
        ∨ (0 : BitVec 32) &&& ~~~kernelRingNotifyCorrupt ≠ 0) := by
      rintro (h1 | h1 | h1)
      · exact h1 (h.valid_iff.2 hb)
      · simp [hk] at h1
      · simp at h1
    unfold kernelRingNotify notifyPosition
    rw [if_neg hgate, if_neg (by simp [hopen]), if_neg (by simp),
      if_neg (BitVec.not_lt.2 (h.fits n hb).used)]
    dsimp only
    rw [if_neg hp, if_pos hc]
  · unfold kernelRingNotify
    rw [if_pos (.inr (.inl hk))]
  · unfold kernelRingNotify
    split_ifs
    · exact ⟨_, rfl⟩
    · exact ⟨_, rfl⟩

/-- A thread waits for the first element of a notify ring. -/
def waitedFor : List RingEvent :=
  [.areaOpened 1 1 1 4096, .create 1 1 0 4 4 0 ⟨true, true, true, true, 64, true⟩,
    .thread (.allocate 1 101 4096 8192 0 10 ⟨true, true, true⟩), .thread (.attachHandle 0 1),
    .thread (.publish 0), .thread .takeNext,
    .waitSet 0 [.ring 0 .consumer] false 0 kernelThreadDeadlineNever true true]

theorem waitedFor_sane : (ringInit false).Along RingSane waitedFor := by
  simp [waitedFor, RingState.Along, RingSane, ringInit, kernelRingPoolInit, noRingArea, newRingArea,
    Sane, Admissible, Retirable, ThreadOp.names]

/-- In every state sane calls lead to, the rings of an area lie in it, and apart. -/
theorem run_rings_apart (audit : Bool) (evs : List RingEvent)
    (hs : (ringInit audit).Along RingSane evs) : let s := ringAfter audit evs
    ∀ n, (s.ring n).state ≠ .free → RingFits (s.area (s.ring n).area).byteSize (s.ring n) ∧
      ∀ m, (s.ring m).state ≠ .free → n ≠ m → Apart (s.ring n) (s.ring m) :=
  fun n hn => ⟨(ringAfter_sound hs).1.fits n hn, fun m => (ringAfter_sound hs).1.apart n m hn⟩

theorem run_rings_apart_consumer : RingFits 4096 ((ringAfter false waitedFor).ring 0) :=
  (run_rings_apart false _ waitedFor_sane 0 (by decide +kernel)).1

end

end Astra
