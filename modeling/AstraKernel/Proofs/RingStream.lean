import AstraKernel.Proofs.RingCopy

/-!
# A kernel-copy ring is a stream

The bytes consumed from a ring so far, and then those in it, are the bytes committed to it so far,
however often the positions have gone round. What is committed is what was staged last, or else what
the buffer holds.
-/

namespace Astra

open Function List

/-- What has gone through a ring: `staged` is by the offset past what is committed. -/
structure RingStream where
  committed : List (BitVec 8)
  consumed : List (BitVec 8)
  staged : ℕ → Option (BitVec 8)

def RingStream.empty : RingStream := ⟨[], [], fun _ => none⟩

def RingStream.stage (k : RingStream) (offset length : ℕ) (source : ℕ → Option (BitVec 8)) :
    RingStream :=
  { k with staged := fun i =>
      if offset ≤ i ∧ i < offset + length then source (i - offset) else k.staged i }

/-- `left` is what the buffer holds where nothing is staged. -/
def RingStream.commit (k : RingStream) (count : ℕ) (left : ℕ → BitVec 8) : RingStream :=
  { k with
    committed := k.committed ++ (List.range count).map fun i => (k.staged i).getD (left i)
    staged := fun i => k.staged (count + i) }

def freeByte (s : RingState) (n i : ℕ) : BitVec 8 :=
  ringByte s n (((s.ring n).producerPosition.toNat + i) % (s.ring n).capacity.toNat)

def stagedBy (s : RingState) (n : ℕ) (k : RingStream) (offset : BitVec 32) (source : ℕ → BitVec 8)
    (length : BitVec 32) (grant : CopyGrant) : RingStream :=
  match (kernelRingCopyWriteAt s n offset source length grant).1 with
  | .ok => k.stage offset.toNat length.toNat fun i => some (source i)
  | .noSlot | .corrupt => k.stage offset.toNat length.toNat fun _ => none
  | _ => k

def committedBy (s : RingState) (n : ℕ) (k : RingStream) (count : BitVec 32)
    (grant : PublishGrant) : RingStream :=
  if (kernelRingCopyWriteCommit s n count grant).1 = .ok then k.commit count.toNat (freeByte s n)
  else k

def writtenBy (s : RingState) (n : ℕ) (k : RingStream) (source : ℕ → BitVec 8)
    (length : BitVec 32) (atomic : Bool) (grant : CopyGrant) (publish : PublishGrant) :
    RingStream :=
  match kernelRingCopyWritePrepare s n length atomic with
  | (.ok, written) =>
    match kernelRingCopyWriteAt s n 0 source written grant with
    | (.ok, s₁) => committedBy s₁ n (stagedBy s n k 0 source written grant) written publish
    | _ => stagedBy s n k 0 source written grant
  | _ => k

/-- What is consumed is what a peek reads just before. -/
def consumedBy (s : RingState) (n : ℕ) (k : RingStream) (count : BitVec 32) (grant : PublishGrant) :
    RingStream :=
  if (kernelRingCopyConsume s n count grant).1 = .ok then
    { k with consumed := k.consumed ++ (kernelRingCopyPeek s n 0 count true).2 }
  else k

/-- What an event does to the stream of the ring in a slot. -/
def RingState.follow (s : RingState) (n : ℕ) (k : RingStream) : RingEvent → RingStream
  | .create owner area offset elementSize capacity flags grant =>
    if (kernelRingCreateFlagged s owner area offset elementSize capacity flags grant).2.2 = some n
    then .empty else k
  | .writeAt m offset source length grant =>
    if m = n then stagedBy s n k offset source length grant else k
  | .writeCommit m count grant => if m = n then committedBy s n k count grant else k
  | .write m source length atomic grant publish =>
    if m = n then writtenBy s n k source length atomic grant publish else k
  | .consume m count grant => if m = n then consumedBy s n k count grant else k
  | _ => k

def RingState.followed (s : RingState) (n : ℕ) (k : RingStream) : List RingEvent → RingStream
  | [] => k
  | ev :: evs => (s.step ev).followed n (s.follow n k ev) evs

structure Streamed (s : RingState) (n : ℕ) (k : RingStream) : Prop where
  opened : (s.ring n).state = .open
  producer : (s.ring n).producerPosition = BitVec.ofNat 32 k.committed.length
  consumer : (s.ring n).consumerPosition = BitVec.ofNat 32 k.consumed.length
  order : k.consumed.length ≤ k.committed.length
  room : k.committed.length ≤ k.consumed.length + (s.ring n).capacity.toNat
  bytes : k.committed = k.consumed ++ window (ringByte s n) (s.ring n).capacity.toNat
    k.consumed.length (k.committed.length - k.consumed.length)
  staged : ∀ i v, k.staged i = some v →
    k.committed.length + i < k.consumed.length + (s.ring n).capacity.toNat ∧
      ringByte s n ((k.committed.length + i) % (s.ring n).capacity.toNat) = v

def Following (s : RingState) (n : ℕ) (k : RingStream) : Prop :=
  (s.ring n).state ≠ .free → (s.ring n).kernelCopy = true → Streamed s n k

section

variable {s s' s₁ : RingState} {n m : ℕ} {r : KernelRing} {byteSize : BitVec 32} {k : RingStream}

theorem RingFits.capacity_pos (h : RingFits byteSize r) : 0 < r.capacity.toNat := by
  have := h.shapes.two
  omega

theorem RingFits.mod_ofNat (h : RingFits byteSize r) (i : ℕ) :
    (BitVec.ofNat 32 i).toNat % r.capacity.toNat = i % r.capacity.toNat := by
  obtain ⟨e, hlt, he⟩ := h.shapes.power
  rw [BitVec.toNat_ofNat, he]
  exact Nat.mod_mod_of_dvd _ (Nat.pow_dvd_pow 2 (by omega))

theorem Streamed.used (h : Streamed s n k) (hf : RingFits byteSize (s.ring n)) :
    (ringUsed (s.ring n)).toNat = k.committed.length - k.consumed.length := by
  obtain ⟨e, hlt, he⟩ := hf.shapes.power
  have hpow : 2 ^ e < 2 ^ 31 := Nat.pow_lt_pow_right (by omega) hlt
  have hroom := h.room
  have horder := h.order
  unfold ringUsed
  rw [h.producer, h.consumer, BitVec.toNat_sub, BitVec.toNat_ofNat, BitVec.toNat_ofNat]
  omega

theorem Following.unmoved (h : Following s n k) (hu : Unmoved s s' n) : Following s' n k := by
  intro hb hk
  have hs := hu hb hk
  have hp := h hs.busy (hs.place.kernelCopy.symm.trans hk)
  have hcap := hs.place.capacity
  have hbyte : ∀ i, 0 < (s.ring n).capacity.toNat →
      ringByte s' n (i % (s.ring n).capacity.toNat) = ringByte s n (i % (s.ring n).capacity.toNat) :=
    fun i hpos => hs.bytes _ (Nat.mod_lt _ hpos)
  refine ⟨hs.state.trans hp.opened, hs.producer.trans hp.producer, hs.consumer.trans hp.consumer,
    hp.order, hcap ▸ hp.room, ?_, fun i v hv => ?_⟩
  · rw [hcap]
    refine hp.bytes.trans (congrArg _ (window_congr fun i hi => ?_).symm)
    exact hbyte _ (by
      have := hp.room
      omega)
  · rw [hcap]
    obtain ⟨h1, h2⟩ := hp.staged i v hv
    refine ⟨h1, (hbyte _ ?_).trans h2⟩
    have := hp.order
    omega

theorem Streamed.stage (h : Streamed s n k) (hf : RingFits byteSize (s.ring n))
    (hring : s'.ring n = s.ring n) {offset length : ℕ} {f : ℕ → Option (BitVec 8)}
    (ht : Touched (ringByte s n) (ringByte s' n) (s.ring n).capacity.toNat
      (k.committed.length + offset) length)
    (hroom : k.committed.length + offset + length
      ≤ k.consumed.length + (s.ring n).capacity.toNat)
    (hput : ∀ i < length, ∀ v, f i = some v →
      ringByte s' n ((k.committed.length + offset + i) % (s.ring n).capacity.toNat) = v) :
    Streamed s' n (k.stage offset length f) := by
  have hpos := hf.capacity_pos
  have horder := h.order
  refine ⟨hring ▸ h.opened, hring ▸ h.producer, hring ▸ h.consumer, h.order, hring ▸ h.room, ?_,
    fun i v hv => ?_⟩
  · rw [hring]
    refine h.bytes.trans (congrArg _ (ht.window hpos ?_ hroom).symm)
    omega
  · rw [hring]
    simp only [RingStream.stage] at hv ⊢
    split_ifs at hv with hin
    · refine ⟨by omega, ?_⟩
      have := hput (i - offset) (by omega) v hv
      rwa [show k.committed.length + offset + (i - offset) = k.committed.length + i by omega] at this
    · obtain ⟨h1, h2⟩ := h.staged i v hv
      refine ⟨h1, (ht.at hpos ?_).trans h2⟩
      by_cases hi : i < offset
      · exact .inl ⟨by omega, by omega⟩
      · exact .inr ⟨by omega, by omega⟩

theorem kernelRingCopyWriteAt_spec (h : RingSound s) (hk : Following s n k) (offset : BitVec 32)
    (source : ℕ → BitVec 8) (length : BitVec 32) (grant : CopyGrant) :
    ∃ status s', kernelRingCopyWriteAt s n offset source length grant = (status, s') ∧
      RingSound s' ∧ s'.ring = s.ring ∧ (∀ m, m ≠ n → Unmoved s s' m) ∧
      Following s' n (stagedBy s n k offset source length grant) := by
  by_cases hgate : ¬ validRing s n ∨ length = 0 ∨ (s.ring n).kernelCopy = false
  · have he : kernelRingCopyWriteAt s n offset source length grant = (.invalidArgument, s) :=
      if_pos hgate
    refine ⟨_, s, he, h, rfl, fun m _ => .refl s m, ?_⟩
    rw [stagedBy, he]
    exact hk
  have hgate' := hgate
  simp only [not_or, not_not, Bool.not_eq_false] at hgate'
  obtain ⟨hv, -, hcopy⟩ := hgate'
  have hb := h.valid_iff.1 hv
  have hf := h.fits n hb
  have hs := hk hb hcopy
  have hused := hs.used hf
  have hu : ¬ (s.ring n).capacity < ringUsed (s.ring n) := BitVec.not_lt.2 hf.used
  by_cases hroom : (s.ring n).capacity - ringUsed (s.ring n) < offset
      ∨ (s.ring n).capacity - ringUsed (s.ring n) - offset < length
  · have he : kernelRingCopyWriteAt s n offset source length grant = (.invalidArgument, s) := by
      unfold kernelRingCopyWriteAt
      rw [if_neg hgate, if_neg hu, if_pos hroom]
    refine ⟨_, s, he, h, rfl, fun m _ => .refl s m, ?_⟩
    rw [stagedBy, he]
    exact hk
  have he : kernelRingCopyWriteAt s n offset source length grant
      = copyRangeWrite s n ((s.ring n).producerPosition + offset) source length grant := by
    unfold kernelRingCopyWriteAt
    rw [if_neg hgate, if_neg hu, if_neg hroom]
  have hfits := hf.used
  have horder := hs.order
  have hfull := hs.room
  have hle : length ≤ (s.ring n).capacity := by bv_omega
  have hroom' : k.committed.length + offset.toNat + length.toNat
      ≤ k.consumed.length + (s.ring n).capacity.toNat := by bv_omega
  obtain ⟨status, s', he', hw, ht, hput, hstatus⟩ := copyRangeWrite_spec h hb hcopy hle source grant
  have hstart : ((s.ring n).producerPosition + offset).toNat % (s.ring n).capacity.toNat
      = (k.committed.length + offset.toNat) % (s.ring n).capacity.toNat := by
    have hsum : (s.ring n).producerPosition + offset
        = BitVec.ofNat 32 (k.committed.length + offset.toNat) := by
      rw [hs.producer, BitVec.ofNat_add, BitVec.ofNat_toNat, BitVec.setWidth_eq]
    rw [hsum, hf.mod_ofNat]
  have ht' := ht.of_start hstart
  have hring : s'.ring n = s.ring n := by rw [hw.ring]
  rw [he, he']
  refine ⟨_, _, rfl, h.rewritten hw, hw.ring, fun m hm => hw.others h hb hm, fun _ _ => ?_⟩
  have hforget : Streamed s' n (k.stage offset.toNat length.toNat fun _ => none) :=
    hs.stage hf hring ht' hroom' fun i _ v hv => by simp at hv
  rw [stagedBy, he, he']
  rcases hstatus with rfl | rfl | rfl
  · refine hs.stage hf hring ht' hroom' fun i hi v hv => ?_
    rw [← Option.some.inj hv]
    exact ((hput rfl).of_start hstart).put i hi
  · exact hforget
  · exact hforget

theorem Streamed.commit (h : Streamed s n k) (hf : RingFits byteSize (s.ring n)) {count : BitVec 32}
    (hcount : count ≤ (s.ring n).capacity - ringUsed (s.ring n))
    (hring : s'.ring n = { s.ring n with
      producerPosition := (s.ring n).producerPosition + count })
    (hbyte : ∀ i, ringByte s' n i = ringByte s n i) :
    Streamed s' n (k.commit count.toNat (freeByte s n)) := by
  have hused := h.used hf
  have horder := h.order
  have hfull := h.room
  have hfits := hf.used
  have hroom : k.committed.length + count.toNat
      ≤ k.consumed.length + (s.ring n).capacity.toNat := by bv_omega
  have hlen : (k.commit count.toNat (freeByte s n)).committed.length
      = k.committed.length + count.toNat := by simp [RingStream.commit]
  have hnew : (List.range count.toNat).map (fun i => (k.staged i).getD (freeByte s n i))
      = window (ringByte s n) (s.ring n).capacity.toNat k.committed.length count.toNat := by
    refine map_congr_left fun i _ => ?_
    rcases hi : k.staged i with _ | v
    · rw [Option.getD_none, freeByte]
      refine congrArg (ringByte s n) (start_congr ?_ i)
      rw [h.producer, hf.mod_ofNat]
    · rw [Option.getD_some]
      exact ((h.staged i v hi).2).symm
  refine ⟨by rw [hring]; exact h.opened, ?_, by rw [hring]; exact h.consumer, ?_, ?_, ?_,
    fun i v hv => ?_⟩
  · rw [hring, hlen, BitVec.ofNat_add, BitVec.ofNat_toNat, BitVec.setWidth_eq, ← h.producer]
  · rw [hlen]
    exact Nat.le_trans horder (Nat.le_add_right _ _)
  · rw [hring, hlen]
    exact hroom
  · rw [hlen, hring]
    have hsame : ringByte s' n = ringByte s n := funext hbyte
    simp only [RingStream.commit]
    rw [hsame, hnew, show k.committed.length + count.toNat - k.consumed.length
      = k.committed.length - k.consumed.length + count.toNat by omega, window_add,
      ← append_assoc, Nat.add_sub_cancel' horder, ← h.bytes]
  · rw [hlen, hring]
    obtain ⟨h1, h2⟩ := h.staged (count.toNat + i) v hv
    simp only [hbyte, RingStream.commit]
    rw [Nat.add_assoc]
    exact ⟨h1, h2⟩

theorem kernelRingCopyWriteCommit_spec (h : RingSound s) (hk : Following s n k) (count : BitVec 32)
    (grant : PublishGrant) :
    ∃ status s' woken, kernelRingCopyWriteCommit s n count grant = (status, s', woken) ∧
      RingSound s' ∧ (∀ m, m ≠ n → Unmoved s s' m) ∧
      Following s' n (committedBy s n k count grant) ∧
      (status ≠ .ok → (s'.ring n).producerPosition = (s.ring n).producerPosition) := by
  by_cases hgate : ¬ validRing s n ∨ count = 0 ∨ (s.ring n).kernelCopy = false
      ∨ (s.ring n).state ≠ .open ∨ (s.ring n).producerReferences = 0
      ∨ (s.ring n).consumerReferences = 0
  · have he : kernelRingCopyWriteCommit s n count grant = (.invalidArgument, s, 0) := if_pos hgate
    refine ⟨_, s, 0, he, h, fun m _ => .refl s m, ?_, fun _ => rfl⟩
    rw [committedBy, he]
    exact hk
  have hgate' := hgate
  simp only [not_or, not_not, Bool.not_eq_false] at hgate'
  obtain ⟨hv, -, hcopy, hopen, -, -⟩ := hgate'
  have hb := h.valid_iff.1 hv
  have hf := h.fits n hb
  have hs := hk hb hcopy
  have hu : ¬ (s.ring n).capacity < ringUsed (s.ring n) := BitVec.not_lt.2 hf.used
  by_cases hroom : (s.ring n).capacity - ringUsed (s.ring n) < count
  · have he : kernelRingCopyWriteCommit s n count grant = (.invalidArgument, s, 0) := by
      unfold kernelRingCopyWriteCommit
      rw [if_neg hgate, if_neg hu, if_pos hroom]
    refine ⟨_, s, 0, he, h, fun m _ => .refl s m, ?_, fun _ => rfl⟩
    rw [committedBy, he]
    exact hk
  obtain ⟨status, s₁, hpub, hw, hbyte, -⟩ := publishPosition_spec h hb hcopy
    (by decide : headerProducerPosition.toNat + 4 ≤ kernelRingHeaderSize.toNat)
    ((s.ring n).producerPosition + count) grant
  have hs₁ := h.rewritten hw
  have hring : s₁.ring = s.ring := hw.ring
  by_cases hok : status = .ok
  · subst hok
    obtain ⟨p, woken, hwake, hwoke⟩ := ringWakeQueue_spec
      (s := s₁.setRing n fun r => { r with
        producerPosition := (s.ring n).producerPosition + count }) hs₁.healthy (consumerWaiters n)
      astraSyscallOk
    have he : kernelRingCopyWriteCommit s n count grant = (.ok, (s₁.setRing n fun r => { r with
        producerPosition := (s.ring n).producerPosition + count }).withPool p, woken) := by
      unfold kernelRingCopyWriteCommit
      dsimp only
      rw [if_neg hgate, if_neg hu, if_neg hroom, hpub]
      dsimp only
      rw [hwake]
    have hadv : (s.ring n).producerPosition + count - (s₁.ring n).producerPosition
        ≤ (s₁.ring n).capacity - ringUsed (s₁.ring n) := by
      rw [hring]
      bv_omega
    refine ⟨_, _, woken, he, hs₁.produced (hring ▸ hb) hadv hwoke, fun m hm => ?_, fun _ _ => ?_,
      fun h1 => absurd rfl h1⟩
    · refine (hw.others h hb hm).trans (.of_eq (update_of_ne hm _ _) rfl)
    · rw [committedBy, he, if_pos rfl]
      refine hs.commit hf (BitVec.not_lt.1 hroom) ?_ fun i => ?_
      · simp [RingState.setRing, RingState.withPool, hring]
      · rw [← hbyte i, ringByte, ringByte]
        simp [RingState.setRing, RingState.withPool]
  · have he : kernelRingCopyWriteCommit s n count grant = (.corrupt, s₁, 0) := by
      unfold kernelRingCopyWriteCommit
      dsimp only
      rw [if_neg hgate, if_neg hu, if_neg hroom, hpub]
      cases status
      case ok => exact absurd rfl hok
      all_goals rfl
    refine ⟨_, s₁, 0, he, hs₁, fun m hm => hw.others h hb hm, ?_, fun _ => by rw [hring]⟩
    rw [committedBy, he]
    refine hk.unmoved fun h1 h2 => ⟨hb, by rw [hring], by rw [hring]; exact .refl _, by rw [hring],
      by rw [hring], fun i _ => hbyte i⟩

theorem Streamed.pending (h : Streamed s n k) : k.committed.drop k.consumed.length
    = window (ringByte s n) (s.ring n).capacity.toNat k.consumed.length
      (k.committed.length - k.consumed.length) := by
  conv_lhs => rw [h.bytes]
  exact drop_left

theorem Streamed.copied (h : RingSound s) (hb : (s.ring n).state ≠ .free)
    (hcopy : (s.ring n).kernelCopy = true) (hs : Streamed s n k) {offset length : BitVec 32}
    (h0 : length ≠ 0) (hle : length.toNat ≤ (s.ring n).capacity.toNat)
    (hlive : (s.area (s.ring n).area).live = true) :
    copyRangeRead s n ((s.ring n).consumerPosition + offset) length true
      = (.ok, window (ringByte s n) (s.ring n).capacity.toNat (k.consumed.length + offset.toNat)
        length.toNat) := by
  have hf := h.fits n hb
  rw [(copyRangeRead_spec h hb hcopy h0 hle).1 hlive]
  refine congrArg (Prod.mk _) (window_start ?_)
  have hsum : (s.ring n).consumerPosition + offset
      = BitVec.ofNat 32 (k.consumed.length + offset.toNat) := by
    rw [hs.consumer, BitVec.ofNat_add, BitVec.ofNat_toNat, BitVec.setWidth_eq]
  rw [hsum, hf.mod_ofNat]

theorem kernelRingCopyPeek_spec (h : RingSound s) (hb : (s.ring n).state ≠ .free)
    (hcopy : (s.ring n).kernelCopy = true) (hs : Streamed s n k) (offset capacity : BitVec 32) :
    (∀ sync, (kernelRingCopyPeek s n offset capacity sync).1 = .ok →
      (kernelRingCopyPeek s n offset capacity sync).2
        = ((k.committed.drop k.consumed.length).drop offset.toNat).take capacity.toNat) ∧
      ((s.ring n).consumerReferences ≠ 0 → (s.area (s.ring n).area).live = true → capacity ≠ 0 →
        offset < ringUsed (s.ring n) → (kernelRingCopyPeek s n offset capacity true).1 = .ok) := by
  have hf := h.fits n hb
  have hused := hs.used hf
  have hfits := hf.used
  have hu : ¬ (s.ring n).capacity < ringUsed (s.ring n) := BitVec.not_lt.2 hf.used
  have hc : ¬ (s.ring n).state = .closing := by simp [hs.opened]
  have hread : offset < ringUsed (s.ring n) → capacity ≠ 0 →
      (s.area (s.ring n).area).live = true →
      copyRangeRead s n ((s.ring n).consumerPosition + offset)
        (if ringUsed (s.ring n) - offset < capacity then ringUsed (s.ring n) - offset else capacity)
        true = (.ok, ((k.committed.drop k.consumed.length).drop offset.toNat).take
          capacity.toNat) := by
    intro hlt h0 hlive
    rw [hs.copied h hb hcopy (by split_ifs <;> bv_omega) (by split_ifs <;> bv_omega) hlive,
      hs.pending, window_drop (by bv_omega)]
    split_ifs with hmin
    · rw [take_of_length_le (by rw [window_length]; bv_omega)]
      rw [show (ringUsed (s.ring n) - offset).toNat
        = k.committed.length - k.consumed.length - offset.toNat by bv_omega]
    · rw [window_take (by bv_omega)]
  have hclosed : ∀ sync, sync = false ∨ (s.area (s.ring n).area).live = false →
      offset < ringUsed (s.ring n) → capacity ≠ 0 →
      (copyRangeRead s n ((s.ring n).consumerPosition + offset)
        (if ringUsed (s.ring n) - offset < capacity then ringUsed (s.ring n) - offset else capacity)
        sync).1 = .corrupt := by
    intro sync hsync hlt h0
    exact (copyRangeRead_spec h hb hcopy (by split_ifs <;> bv_omega)
      (by split_ifs <;> bv_omega)).2 sync hsync
  unfold kernelRingCopyPeek
  by_cases hgate : ¬ validRing s n ∨ capacity = 0 ∨ (s.ring n).kernelCopy = false
  · simp only [if_pos hgate]
    refine ⟨fun _ h1 => by simp at h1, fun _ _ h0 _ => ?_⟩
    rcases hgate with h1 | h1 | h1
    · exact absurd (h.valid_iff.2 hb) h1
    · exact absurd h1 h0
    · simp [hcopy] at h1
  have h0 : capacity ≠ 0 := fun h1 => hgate (.inr (.inl h1))
  simp only [if_neg hgate, if_neg hc, if_neg hu]
  by_cases hcons : (s.ring n).consumerReferences = 0
  · simp only [if_pos hcons]
    exact ⟨fun _ h1 => by simp at h1, fun h1 => absurd hcons h1⟩
  simp only [if_neg hcons]
  by_cases hpast : ringUsed (s.ring n) < offset
  · simp only [if_pos hpast]
    exact ⟨fun _ h1 => by simp at h1, fun _ _ _ h1 => absurd hpast (by bv_omega)⟩
  simp only [if_neg hpast]
  by_cases hend : offset = ringUsed (s.ring n)
  · simp only [if_pos hend]
    refine ⟨fun _ h1 => ?_, fun _ _ _ h1 => absurd h1 (by bv_omega)⟩
    have hnil : (k.committed.drop k.consumed.length).drop offset.toNat = [] := by
      rw [hs.pending]
      refine drop_eq_nil_of_le ?_
      rw [window_length, hend, hused]
    rw [hnil, take_nil]
    split_ifs <;> rfl
  · simp only [if_neg hend]
    have hlt : offset < ringUsed (s.ring n) := by bv_omega
    refine ⟨fun sync h1 => ?_, fun _ hlive _ _ => by rw [hread hlt h0 hlive]⟩
    by_cases hsync : sync = false ∨ (s.area (s.ring n).area).live = false
    · rw [hclosed sync hsync hlt h0] at h1
      simp at h1
    · simp only [not_or, Bool.not_eq_false] at hsync
      obtain ⟨rfl, hlive⟩ := hsync
      rw [hread hlt h0 hlive]

theorem Streamed.consume (h : Streamed s n k) (hf : RingFits byteSize (s.ring n)) {count : BitVec 32}
    (hcount : count ≤ ringUsed (s.ring n))
    (hring : s'.ring n = { s.ring n with
      consumerPosition := (s.ring n).consumerPosition + count })
    (hbyte : ∀ i, ringByte s' n i = ringByte s n i) :
    Streamed s' n { k with consumed := k.consumed
      ++ (k.committed.drop k.consumed.length).take count.toNat } := by
  have hused := h.used hf
  have horder := h.order
  have hfull := h.room
  have hle : count.toNat ≤ k.committed.length - k.consumed.length := by bv_omega
  have hlen : (k.consumed ++ (k.committed.drop k.consumed.length).take count.toNat).length
      = k.consumed.length + count.toNat := by
    rw [length_append, length_take, length_drop, Nat.min_eq_left hle]
  have hsame : ringByte s' n = ringByte s n := funext hbyte
  refine ⟨by rw [hring]; exact h.opened, by rw [hring]; exact h.producer, ?_, ?_, ?_, ?_,
    fun i v hv => ?_⟩
  · rw [hring, hlen, BitVec.ofNat_add, BitVec.ofNat_toNat, BitVec.setWidth_eq, ← h.consumer]
  · rw [hlen]
    dsimp only
    omega
  · rw [hlen, hring]
    dsimp only
    omega
  · rw [hlen, hring, hsame, h.pending, window_take hle, append_assoc,
      show k.committed.length - (k.consumed.length + count.toNat)
        = k.committed.length - k.consumed.length - count.toNat by omega, ← window_drop hle,
      ← window_take hle, take_append_drop]
    exact h.bytes
  · rw [hlen, hring, hsame]
    obtain ⟨h1, h2⟩ := h.staged i v hv
    dsimp only
    exact ⟨by omega, h2⟩

theorem kernelRingCopyConsume_spec (h : RingSound s) (hk : Following s n k) (count : BitVec 32)
    (grant : PublishGrant) :
    ∃ status s' woken, kernelRingCopyConsume s n count grant = (status, s', woken) ∧
      RingSound s' ∧ (∀ m, m ≠ n → Unmoved s s' m) ∧
      Following s' n (consumedBy s n k count grant) := by
  by_cases hgate : ¬ validRing s n ∨ count = 0 ∨ (s.ring n).kernelCopy = false
      ∨ (s.ring n).state ≠ .open ∨ (s.ring n).consumerReferences = 0
      ∨ ringUsed (s.ring n) < count
  · have he : kernelRingCopyConsume s n count grant = (.invalidArgument, s, 0) := if_pos hgate
    refine ⟨_, s, 0, he, h, fun m _ => .refl s m, ?_⟩
    rw [consumedBy, he]
    exact hk
  have hgate' := hgate
  simp only [not_or, not_not, Bool.not_eq_false, BitVec.not_lt] at hgate'
  obtain ⟨hv, h0, hcopy, hopen, hcons, hcount⟩ := hgate'
  have hb := h.valid_iff.1 hv
  have hf := h.fits n hb
  have hs := hk hb hcopy
  obtain ⟨status, s₁, hpub, hw, hbyte, hlive⟩ := publishPosition_spec h hb hcopy
    (by decide : headerConsumerPosition.toNat + 4 ≤ kernelRingHeaderSize.toNat)
    ((s.ring n).consumerPosition + count) grant
  have hs₁ := h.rewritten hw
  have hring : s₁.ring = s.ring := hw.ring
  by_cases hok : status = .ok
  · subst hok
    have hadv : (s.ring n).consumerPosition + count - (s₁.ring n).consumerPosition
        ≤ ringUsed (s₁.ring n) := by
      rw [hring]
      bv_omega
    have hpeek := kernelRingCopyPeek_spec h hb hcopy hs 0 count
    have hread := hpeek.1 true (hpeek.2 hcons (hlive rfl) h0 (by bv_omega))
    rw [show (0 : BitVec 32).toNat = 0 from rfl, drop_zero] at hread
    -- the bytes are gone from the stream whether or not the producers are woken
    have hfollow : ∀ p, (kernelRingCopyConsume s n count grant).1 = .ok →
        Following ((s₁.setRing n fun r => { r with
          consumerPosition := (s.ring n).consumerPosition + count }).withPool p) n
          (consumedBy s n k count grant) := by
      intro p he _ _
      rw [consumedBy, if_pos he, hread]
      refine hs.consume hf hcount ?_ fun i => ?_
      · simp [RingState.setRing, RingState.withPool, hring]
      · rw [← hbyte i, ringByte, ringByte]
        simp [RingState.setRing, RingState.withPool]
    have hothers : ∀ p, ∀ m, m ≠ n → Unmoved s ((s₁.setRing n fun r => { r with
        consumerPosition := (s.ring n).consumerPosition + count }).withPool p) m :=
      fun p m hm => (hw.others h hb hm).trans (.of_eq (update_of_ne hm _ _) rfl)
    have hself : (s₁.setRing n fun r => { r with
          consumerPosition := (s.ring n).consumerPosition + count }).ring n
        = { s.ring n with consumerPosition := (s.ring n).consumerPosition + count } := by
      simp [RingState.setRing, hring]
    by_cases hwake : (s.ring n).producerReferences ≠ 0 ∧
        ringUsed { s.ring n with consumerPosition := (s.ring n).consumerPosition + count }
          < (s.ring n).capacity
    · obtain ⟨p, woken, hwoken, hwoke⟩ := ringWakeQueue_spec
        (s := s₁.setRing n fun r => { r with
          consumerPosition := (s.ring n).consumerPosition + count }) hs₁.healthy
        (producerWaiters n) astraSyscallOk
      have he : kernelRingCopyConsume s n count grant = (.ok, (s₁.setRing n fun r => { r with
          consumerPosition := (s.ring n).consumerPosition + count }).withPool p, woken) := by
        unfold kernelRingCopyConsume
        dsimp only
        rw [if_neg hgate, hpub]
        dsimp only
        rw [hself, if_pos hwake, hwoken]
      exact ⟨_, _, _, he, hs₁.consumed (hring ▸ hb) hadv hwoke.healthy hwoke.waits
        (fun t ht => absurd ht (hwoke.empty t)), hothers p, hfollow p (by rw [he])⟩
    · have he : kernelRingCopyConsume s n count grant = (.ok, (s₁.setRing n fun r => { r with
          consumerPosition := (s.ring n).consumerPosition + count }).withPool s₁.pool, 0) := by
        unfold kernelRingCopyConsume
        dsimp only
        rw [if_neg hgate, hpub]
        dsimp only
        rw [hself, if_neg hwake]
        rfl
      refine ⟨_, _, _, he, hs₁.consumed (hring ▸ hb) hadv hs₁.healthy (fun _ _ ht => ht)
        (fun t ht => ?_), hothers s₁.pool, hfollow s₁.pool (by rw [he])⟩
      have hwait := hs₁.waits n hv.1 .producer t ht
      have hfull : ringUsed (s₁.ring n) = (s₁.ring n).capacity := hwait.full
      have hprod : (s₁.ring n).producerReferences ≠ 0 := hwait.producers
      rw [hring] at hfull hprod
      refine absurd ⟨hprod, ?_⟩ hwake
      change (s.ring n).producerPosition - ((s.ring n).consumerPosition + count)
        < (s.ring n).capacity
      unfold ringUsed at hfull hcount
      bv_omega
  · have he : kernelRingCopyConsume s n count grant = (.corrupt, s₁, 0) := by
      unfold kernelRingCopyConsume
      dsimp only
      rw [if_neg hgate, hpub]
      cases status
      case ok => exact absurd rfl hok
      all_goals rfl
    refine ⟨_, s₁, 0, he, hs₁, fun m hm => hw.others h hb hm, ?_⟩
    rw [consumedBy, he]
    refine hk.unmoved fun h1 h2 => ⟨hb, by rw [hring], by rw [hring]; exact .refl _, by rw [hring],
      by rw [hring], fun i _ => hbyte i⟩

theorem kernelRingCopyWritePrepare_spec {length written : BitVec 32} {atomic : Bool}
    (he : kernelRingCopyWritePrepare s n length atomic = (.ok, written)) :
    written ≤ length ∧ (atomic = true → written = length) := by
  unfold kernelRingCopyWritePrepare at he
  dsimp only at he
  split_ifs at he with h1 h2 h3 h4 h5 h6 hroom hshort
  all_goals simp only [Prod.mk.injEq, reduceCtorEq, false_and, true_and] at he
  · subst he
    exact ⟨by bv_omega, fun ha => absurd (Or.inr ⟨ha, hshort⟩) hroom⟩
  · subst he
    exact ⟨BitVec.le_refl _, fun _ => rfl⟩

theorem kernelRingCopyWrite_spec (h : RingSound s) (hk : Following s n k) (source : ℕ → BitVec 8)
    (length : BitVec 32) (atomic : Bool) (grant : CopyGrant) (publish : PublishGrant) :
    ∃ status s' written woken, kernelRingCopyWrite s n source length atomic grant publish
        = (status, s', written, woken) ∧ RingSound s' ∧ (∀ m, m ≠ n → Unmoved s s' m) ∧
      Following s' n (writtenBy s n k source length atomic grant publish) ∧
      (writtenBy s n k source length atomic grant publish).committed
        = k.committed ++ (List.range written.toNat).map source ∧
      (status = .ok → written ≤ length ∧ (atomic = true → written = length)) ∧
      (status ≠ .ok → written = 0 ∧
        (s'.ring n).producerPosition = (s.ring n).producerPosition) := by
  have hnone : ∀ status, status ≠ KernelRingStatus.ok → status = .ok →
      (0 : BitVec 32) ≤ length ∧ (atomic = true → (0 : BitVec 32) = length) :=
    fun status h1 h2 => absurd h2 h1
  unfold kernelRingCopyWrite writtenBy
  rcases hprep : kernelRingCopyWritePrepare s n length atomic with ⟨status, written⟩
  by_cases hok : status = .ok
  · subst hok
    obtain ⟨hle, hatomic⟩ := kernelRingCopyWritePrepare_spec hprep
    obtain ⟨status₁, s₁, he₁, hs₁, hring₁, hu₁, hk₁⟩ :=
      kernelRingCopyWriteAt_spec h hk 0 source written grant
    dsimp only
    rw [he₁]
    by_cases hok₁ : status₁ = .ok
    · subst hok₁
      dsimp only
      obtain ⟨status₂, s₂, woken, he₂, hs₂, hu₂, hk₂, hpos⟩ :=
        kernelRingCopyWriteCommit_spec hs₁ hk₁ written publish
      have hstage : stagedBy s n k 0 source written grant
          = k.stage 0 written.toNat fun i => some (source i) := by
        rw [stagedBy, he₁]
        rfl
      have hothers : ∀ m, m ≠ n → Unmoved s s₂ m := fun m hm => (hu₁ m hm).trans (hu₂ m hm)
      rw [he₂]
      by_cases hok₂ : status₂ = .ok
      · subst hok₂
        refine ⟨_, _, _, _, rfl, hs₂, hothers, hk₂, ?_, fun _ => ⟨hle, hatomic⟩,
          fun h1 => absurd rfl h1⟩
        rw [committedBy, he₂, if_pos rfl, hstage]
        refine congrArg (k.committed ++ ·) (map_congr_left fun i hi => ?_)
        rw [mem_range] at hi
        simp [RingStream.stage, hi]
      · refine ⟨status₂, s₂, 0, woken, ?_, hs₂, hothers, hk₂, ?_, hnone status₂ hok₂,
          fun _ => ⟨rfl, (hpos hok₂).trans (by rw [hring₁])⟩⟩
        · cases status₂
          case ok => exact absurd rfl hok₂
          all_goals rfl
        · rw [committedBy, he₂, if_neg hok₂, hstage]
          simp [RingStream.stage]
    · refine ⟨status₁, s₁, 0, 0, ?_, hs₁, hu₁, ?_, ?_, hnone status₁ hok₁,
        fun _ => ⟨rfl, by rw [hring₁]⟩⟩
      · cases status₁
        case ok => exact absurd rfl hok₁
        all_goals rfl
      · cases status₁
        case ok => exact absurd rfl hok₁
        all_goals exact hk₁
      · cases status₁
        case ok => exact absurd rfl hok₁
        all_goals
          rw [stagedBy, he₁]
          simp [RingStream.stage]
  · refine ⟨status, s, 0, 0, ?_, h, fun m _ => .refl s m, ?_, ?_, hnone status hok,
      fun _ => ⟨rfl, rfl⟩⟩
    · cases status
      case ok => exact absurd rfl hok
      all_goals rfl
    · cases status
      case ok => exact absurd rfl hok
      all_goals exact hk
    · cases status
      case ok => exact absurd rfl hok
      all_goals simp

end

end Astra
