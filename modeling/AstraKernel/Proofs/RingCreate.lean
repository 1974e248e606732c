import AstraKernel.Proofs.RingCalls

/-!
# The range of a ring

A ring has a range of its area to itself, because a ring is created only where no other is. What is
written into one ring's range leaves the bytes of the others as they are.
-/

namespace Astra

open Finset Function

section

variable {s s' s₁ : RingState} {n m a : ℕ} {r o : KernelRing}

theorem astraU32IsPowerOfTwo_spec {value : BitVec 32} (h : astraU32IsPowerOfTwo value) :
    ∃ e, value.toNat = 2 ^ e := by
  obtain ⟨h0, h1⟩ := h
  have hpos : value.toNat ≠ 0 := fun hz => h0 (BitVec.eq_of_toNat_eq (by simpa using hz))
  have hand : value.toNat &&& (value.toNat - 1) = 0 := by
    have := congrArg BitVec.toNat h1
    rw [BitVec.toNat_and] at this
    rwa [show (value - 1).toNat = value.toNat - 1 by bv_omega] at this
  exact (Nat.and_sub_one_eq_zero_iff_isPowerOfTwo hpos).1 hand

structure RingShape (kernelCopy : Bool) (byteSize offset elementSize capacity total : BitVec 32) :
    Prop where
  power : ∃ e, e < 31 ∧ capacity.toNat = 2 ^ e
  two : 2 ≤ capacity.toNat
  sum : total.toNat = kernelRingHeaderSize.toNat + elementSize.toNat * capacity.toNat
  inside : offset.toNat + total.toNat ≤ byteSize.toNat
  copy : kernelCopy = true → elementSize = 1

variable {byteSize : BitVec 32} {first last : ℕ}

theorem ringShapeValid_spec {k : Bool} {offset elementSize capacity total : BitVec 32}
    (h : ringShapeValid k byteSize offset elementSize capacity = some total) :
    RingShape k byteSize offset elementSize capacity total := by
  unfold ringShapeValid at h
  dsimp only at h
  by_cases hgate : offset &&& (kernelRingOffsetAlignment - 1) ≠ 0
      ∨ (if k then elementSize ≠ 1
        else elementSize < kernelRingElementSizeMin ∨ elementSize &&& 3 ≠ 0)
      ∨ capacity < kernelRingCapacityMin ∨ 0x80000000 ≤ capacity
      ∨ ¬ astraU32IsPowerOfTwo capacity
  · rw [if_pos hgate] at h
    exact absurd h (by simp)
  rw [if_neg hgate] at h
  simp only [not_or, BitVec.not_lt, BitVec.not_le] at hgate
  obtain ⟨-, helement, htwo, hmax, hpower⟩ := hgate
  obtain ⟨e, he⟩ := astraU32IsPowerOfTwo_spec (not_not.1 hpower)
  split at h
  · exact absurd h (by simp)
  rename_i hsize
  simp only [not_or, BitVec.not_lt, Nat.not_lt] at hsize
  obtain ⟨h32, hoffset, hroom⟩ := hsize
  obtain rfl := (Option.some.inj h).symm
  have htotal : (BitVec.ofNat 32 (kernelRingHeaderSize.toNat
      + elementSize.toNat * capacity.toNat)).toNat
      = kernelRingHeaderSize.toNat + elementSize.toNat * capacity.toNat := by
    rw [BitVec.toNat_ofNat, Nat.mod_eq_of_lt]
    omega
  refine ⟨⟨e, ?_, he⟩, by bv_omega, htotal, ?_, fun hk => ?_⟩
  · by_contra hle
    have hpow : 2 ^ 31 ≤ 2 ^ e := Nat.pow_le_pow_right (by omega) (by omega)
    rw [← he] at hpow
    bv_omega
  · rw [htotal]
    bv_omega
  · subst hk
    simpa using helement

theorem RingFits.shapes (h : RingFits byteSize r) :
    RingShape r.kernelCopy byteSize r.offset r.elementSize r.capacity r.totalSize :=
  ringShapeValid_spec h.shape

theorem RingFits.buffer (h : RingFits byteSize r) (hk : r.kernelCopy = true) :
    r.totalSize.toNat = kernelRingHeaderSize.toNat + r.capacity.toNat := by
  have hs := h.shapes
  rw [hs.sum, hs.copy hk]
  simp

structure Rewritten (s s' : RingState) (a first last : ℕ) : Prop where
  eq : ∃ f, s' = s.setArea a fun area => { area with bytes := f }
  bytes : ∀ i, i < first ∨ last ≤ i → (s'.area a).bytes i = (s.area a).bytes i

theorem RingSound.rewritten (h : RingSound s) (hw : Rewritten s s' a first last) :
    RingSound s' := by
  obtain ⟨f, rfl⟩ := hw.eq
  have hsize : ∀ b, ((s.setArea a fun area => { area with bytes := f }).area b).byteSize
      = (s.area b).byteSize := by
    intro b
    rcases eq_or_ne b a with rfl | hne
    · simp [RingState.setArea]
    · simp [RingState.setArea, update_of_ne hne]
  have hchildren : ∀ b, ((s.setArea a fun area => { area with bytes := f }).area b).childReferences
      = (s.area b).childReferences := by
    intro b
    rcases eq_or_ne b a with rfl | hne
    · simp [RingState.setArea]
    · simp [RingState.setArea, update_of_ne hne]
  exact { h with
    fits := fun n hn => (hsize _).symm ▸ h.fits n hn
    children := fun b => (hchildren b).trans (h.children b) }

def Outside (r : KernelRing) (a first last : ℕ) : Prop :=
  r.area = a → last ≤ r.offset.toNat ∨ r.offset.toNat + r.totalSize.toNat ≤ first

theorem Rewritten.unmoved (h : RingSound s) (hw : Rewritten s s' a first last)
    (ho : (s.ring n).state ≠ .free → Outside (s.ring n) a first last) : Unmoved s s' n := by
  have hring : s'.ring n = s.ring n := by
    obtain ⟨f, rfl⟩ := hw.eq
    rfl
  intro hb hk
  rw [hring] at hb hk
  refine ⟨hb, by rw [hring], hring ▸ .refl _, by rw [hring], by rw [hring], fun i hi => ?_⟩
  have hbuffer := (h.fits n hb).buffer hk
  unfold ringByte
  rw [hring]
  by_cases ha : (s.ring n).area = a
  · rw [ha]
    refine hw.bytes _ ?_
    rcases ho hb ha with h1 | h1
    · exact .inr (by omega)
    · exact .inl (by omega)
  · obtain ⟨f, rfl⟩ := hw.eq
    simp [RingState.setArea, update_of_ne ha]

theorem kernelAreaWrite_spec (s : RingState) (a : ℕ) (offset : BitVec 32) (source : ℕ → BitVec 8)
    (size : BitVec 32) (granted : ℕ) :
    Rewritten s (kernelAreaWrite s a offset source size granted).2 a offset.toNat
      (offset.toNat + size.toNat) := by
  unfold kernelAreaWrite
  split
  · refine ⟨⟨(s.area a).bytes, ?_⟩, fun _ _ => rfl⟩
    simp [RingState.setArea]
  · refine ⟨⟨_, rfl⟩, fun i hi => ?_⟩
    simp only [RingState.setArea, update_self]
    rw [if_neg]
    have := Nat.min_le_left size.toNat granted
    omega

structure Claimed (s s' : RingState) : Prop where
  quiet : RingQuiet s s'
  area : s'.area = s.area
  ring : ∀ m, s'.ring m = s.ring m ∨ (s.ring m).state = .free ∧ (s'.ring m).state = .free

theorem Claimed.refl (h : RingSound s) : Claimed s s :=
  ⟨.refl h, rfl, fun _ => .inl rfl⟩

theorem Claimed.trans (h : Claimed s s₁) (h' : Claimed s₁ s') : Claimed s s' := by
  refine ⟨h.quiet.trans h'.quiet, h'.area.trans h.area, fun m => ?_⟩
  rcases h.ring m with h1 | ⟨h1, h2⟩ <;> rcases h'.ring m with h3 | ⟨h3, h4⟩
  · exact .inl (h3.trans h1)
  · exact .inr ⟨h1 ▸ h3, h4⟩
  · exact .inr ⟨h1, h3 ▸ h2⟩
  · exact .inr ⟨h1, h4⟩

theorem addRingLeaf_claimed (h : RingSound s) {leafIndex : ℕ}
    (hl : s.ringDirectory leafIndex = false) : Claimed s (s.addLeaf leafIndex) := by
  have hfree : ∀ m, m / ringLeafEntries = leafIndex → (s.ring m).state = .free := by
    intro m hm
    by_contra hne
    have := (h.backed m hne).2.1
    simp [hm, hl] at this
  have hring : ∀ m, (s.addLeaf leafIndex).ring m = s.ring m ∨
      m / ringLeafEntries = leafIndex ∧ (s.addLeaf leafIndex).ring m = freeRingRecord 1 := by
    intro m
    by_cases hm : m < kernelRingMax ∧ m / ringLeafEntries = leafIndex
    · exact .inr ⟨hm.2, if_pos (decide_eq_true hm)⟩
    · exact .inl (if_neg (by simpa using hm))
  have hkept : ∀ m, ((s.addLeaf leafIndex).ring m).state ≠ .free ∨ (s.ring m).state ≠ .free →
      (s.addLeaf leafIndex).ring m = s.ring m := by
    intro m hm
    refine (hring m).resolve_right fun ⟨h1, h2⟩ => ?_
    rw [h2] at hm
    exact hm.elim (fun h3 => h3 rfl) fun h3 => h3 (hfree m h1)
  have hiff : ∀ m, ((s.addLeaf leafIndex).ring m).state ≠ .free ↔ (s.ring m).state ≠ .free :=
    fun m => ⟨fun hm => hkept m (.inl hm) ▸ hm, fun hm => (hkept m (.inr hm)).symm ▸ hm⟩
  have hlimit : ∀ m, m < s.ringBackedLimit → m < (s.addLeaf leafIndex).ringBackedLimit :=
    fun m hm => lt_of_lt_of_le hm (Nat.le_max_left _ _)
  refine ⟨⟨⟨?_, fun m hm => ?_, fun m hm hd => ?_, h.next, fun m hm => ?_, fun m k hm hk hne => ?_,
    ?_, ?_, fun a => ?_, fun m hlt endpoint t ht => ?_⟩, fun m h1 _ => ?_⟩, rfl, fun m => ?_⟩
  · refine h.healthy.initQueues fun q => ?_
    rcases q with m | m | m
    · by_cases hm : m / 2 < kernelRingMax ∧ m / 2 / ringLeafEntries = leafIndex
      · refine .inr ⟨if_pos (decide_eq_true hm), fun t ht => ?_⟩
        obtain ⟨endpoint, he⟩ : ∃ endpoint, QueueRef.object m = waitersOfEndpoint (m / 2) endpoint := by
          rcases Nat.mod_two_eq_zero_or_one m with h2 | h2
          · exact ⟨.producer, congrArg QueueRef.object (by omega)⟩
          · exact ⟨.consumer, congrArg QueueRef.object (by omega)⟩
        have hopen := (h.waits _ hm.1 endpoint t (he ▸ ht)).open
        simp [hfree _ hm.2] at hopen
      · exact .inl (if_neg (by simpa using hm))
    · exact .inl rfl
    · exact .inl rfl
  · obtain ⟨h1, h2, h3⟩ := h.backed m ((hiff m).1 hm)
    refine ⟨h1, ?_, hlimit m h3⟩
    by_cases hm' : m / ringLeafEntries = leafIndex
    · simp [RingState.addLeaf, hm']
    · simpa [RingState.addLeaf, hm'] using h2
  · by_cases hm' : m / ringLeafEntries = leafIndex
    · refine lt_of_lt_of_le ?_ (Nat.le_max_right _ _)
      have := Nat.lt_div_mul_add (a := m) (b := ringLeafEntries) (by simp)
      rw [hm'] at this
      exact lt_min (this.trans_eq (Nat.succ_mul _ _).symm) hm
    · refine hlimit m (h.leaf m hm ?_)
      simpa [RingState.addLeaf, hm'] using hd
  · have hkeep := hkept m (.inl hm)
    rw [hkeep]
    exact h.fits m ((hiff m).1 hm)
  · rw [hkept m (.inl hm), hkept k (.inl hk)]
    exact h.apart m k ((hiff m).1 hm) ((hiff k).1 hk) hne
  · exact h.active.trans (congrArg Finset.card (filter_congr fun m _ => (hiff m).symm))
  · refine h.closing.trans (congrArg Finset.card (filter_congr fun m _ => ?_))
    by_cases hm : (s.ring m).state = .free
    · have h1 : ((s.addLeaf leafIndex).ring m).state = .free :=
        not_not.1 fun h1 => (hiff m).1 h1 hm
      rw [hm, h1]
    · rw [hkept m (.inr hm)]
  · refine (h.children a).trans (congrArg Finset.card (filter_congr fun m _ => ?_))
    by_cases hm : (s.ring m).state = .free
    · have h1 : ((s.addLeaf leafIndex).ring m).state = .free :=
        not_not.1 fun h1 => (hiff m).1 h1 hm
      simp [hm, h1]
    · rw [hkept m (.inr hm)]
  · have hw := h.waits m hlt endpoint t ht
    rwa [hkept m (.inr (by simp [hw.open]))]
  · have hkeep := hkept m (.inl h1)
    exact Unmoved.of_eq hkeep rfl h1 ‹_›
  · rcases hring m with h1 | ⟨h1, h2⟩
    · exact .inl h1
    · exact .inr ⟨hfree m h1, by rw [h2]; rfl⟩

theorem ensureRingLeaf_claimed (h : RingSound s) (slot : ℕ) (memory : Bool) :
    Claimed s (ensureRingLeaf s slot memory).2 ∧ ((ensureRingLeaf s slot memory).1 = true →
      (ensureRingLeaf s slot memory).2.ringDirectory (slot / ringLeafEntries) = true) := by
  unfold ensureRingLeaf
  dsimp only
  split_ifs with hl hm
  · exact ⟨.refl h, fun _ => hl⟩
  · exact ⟨addRingLeaf_claimed h (by simpa using hl), fun _ => by simp [RingState.addLeaf]⟩
  · exact ⟨.refl h, fun hf => by simp at hf⟩

theorem claimRingSlot_claimed (memory : Bool) : ∀ (fuel : ℕ) {s : RingState} (offset : ℕ),
    RingSound s → offset + fuel ≤ kernelRingMax →
      Claimed s (claimRingSlot memory fuel s offset).2 ∧
        ∀ n, (claimRingSlot memory fuel s offset).1 = some n → n < kernelRingMax ∧
          (claimRingSlot memory fuel s offset).2.ringDirectory (n / ringLeafEntries) = true ∧
          ((claimRingSlot memory fuel s offset).2.ring n).state = .free
  | 0, s, _, h, _ => ⟨.refl h, fun n hn => by simp [claimRingSlot] at hn⟩
  | fuel + 1, s, offset, h, hle => by
    have hlt : (if kernelRingMax ≤ s.nextRingSlot + offset then s.nextRingSlot + offset - kernelRingMax
        else s.nextRingSlot + offset) < kernelRingMax := by
      have := h.next
      split_ifs <;> omega
    unfold claimRingSlot
    dsimp only
    generalize (if kernelRingMax ≤ s.nextRingSlot + offset
      then s.nextRingSlot + offset - kernelRingMax else s.nextRingSlot + offset) = slot at hlt ⊢
    obtain ⟨h1, h2⟩ := ensureRingLeaf_claimed h slot memory
    generalize ensureRingLeaf s slot memory = r at h1 h2
    obtain ⟨_ | _, s₁⟩ := r
    · exact ⟨h1, fun n hn => by simp at hn⟩
    dsimp only at h1 h2 ⊢
    split
    · obtain ⟨h4, h5⟩ := claimRingSlot_claimed memory fuel (offset + 1) h1.quiet.sound (by omega)
      exact ⟨h1.trans h4, h5⟩
    · rename_i hf
      refine ⟨h1, fun n hn => ?_⟩
      cases hn
      exact ⟨hlt, h2 rfl, not_not.1 hf⟩

theorem claimRing_spec (h : RingSound s) (grant : RingGrant) :
    (∃ status s₁, claimRing s grant = (status, s₁, none) ∧ status ≠ .ok ∧ Claimed s s₁) ∨
      ∃ n s₁, claimRing s grant = (.ok, s₁, some n) ∧ Claimed s s₁ ∧ n < kernelRingMax ∧
        s₁.ringDirectory (n / ringLeafEntries) = true ∧ (s₁.ring n).state = .free := by
  unfold claimRing
  by_cases ha : grant.attempt = false
  · exact .inl ⟨_, _, if_pos ha, by simp, .refl h⟩
  rw [if_neg ha]
  obtain ⟨h1, h2⟩ := claimRingSlot_claimed grant.leaf kernelRingMax 0 h (Nat.zero_add _).le
  generalize claimRingSlot grant.leaf kernelRingMax s 0 = r at h1 h2
  obtain ⟨_ | n, s₁⟩ := r
  · exact .inl ⟨_, _, rfl, by simp, h1⟩
  obtain ⟨hlt, hd, hf⟩ := h2 n rfl
  dsimp only
  by_cases hu : grant.unit = false
  · exact .inl ⟨_, _, if_pos hu, by simp, h1⟩
  rw [if_neg hu]
  refine .inr ⟨n, _, rfl, h1.trans ⟨⟨{ h1.quiet.sound with next := ?_ }, fun m => .of_eq rfl rfl⟩, rfl,
    fun _ => .inl rfl⟩, hlt, hd, hf⟩
  dsimp only
  split_ifs <;> omega

theorem RingSound.noWaits (h : RingSound s) (hn : n < kernelRingMax) (hf : (s.ring n).state = .free)
    (endpoint : KernelRingEndpoint) (t : Slot) : ¬ Waits s.pool t (waitersOfEndpoint n endpoint) := by
  intro ht
  have := (h.waits n hn endpoint t ht).open
  simp [hf] at this

theorem RingSound.fill (h : RingSound s) (hn : n < kernelRingMax)
    (hd : s.ringDirectory (n / ringLeafEntries) = true) (hf : (s.ring n).state = .free)
    (hp : Healthy s'.pool) (hw : ∀ t q, Waits s'.pool t q → Waits s.pool t q)
    (hring : ∀ m, m ≠ n → s'.ring m = s.ring m) (hdirectory : s'.ringDirectory = s.ringDirectory)
    (hlimit : s'.ringBackedLimit = s.ringBackedLimit) (hnext : s'.nextRingSlot < kernelRingMax)
    (hsize : ∀ a, (s'.area a).byteSize = (s.area a).byteSize)
    (hchildren : ∀ a, (s'.area a).childReferences = (s.area a).childReferences
      + if (s'.ring n).state ≠ .free ∧ (s'.ring n).area = a then 1 else 0)
    (hactive : s'.activeRings = s.activeRings + if (s'.ring n).state ≠ .free then 1 else 0)
    (hclosing : s'.closingRings = s.closingRings) (hnot : (s'.ring n).state ≠ .closing)
    (hfits : (s'.ring n).state ≠ .free → RingFits (s.area (s'.ring n).area).byteSize (s'.ring n))
    (hapart : (s'.ring n).state ≠ .free → ∀ m, (s.ring m).state ≠ .free →
      Apart (s'.ring n) (s.ring m)) : RingSound s' := by
  refine h.change hn ⟨hp, hring, hdirectory, hlimit, hnext, hsize, fun _ => ⟨hn, hd⟩, hfits,
    fun h1 m h2 _ => hapart h1 m h2, ?_, ?_, fun a => ?_, fun m _ _ endpoint t ht => hw t _ ht,
    fun endpoint t ht => absurd (hw t _ ht) (h.noWaits hn hf endpoint t)⟩
  · simpa [hf] using hactive
  · simpa [hf, hnot] using hclosing
  · simpa [hf] using hchildren a

theorem apart_of_not_overlap {byteSize' : BitVec 32} (h : RingFits byteSize r)
    (h' : RingFits byteSize' o)
    (hno : ¬ (o.area = r.area ∧ rangesOverlap r.offset r.totalSize o.offset o.totalSize)) :
    Apart r o := by
  intro ha
  have h1 := h.shapes.inside
  have h2 := h'.shapes.inside
  have h3 : ¬ rangesOverlap r.offset r.totalSize o.offset o.totalSize :=
    fun h3 => hno ⟨ha.symm, h3⟩
  unfold rangesOverlap at h3
  bv_omega

theorem kernelGenerationNextMasked_spec (generation : ℕ) :
    kernelGenerationNextMasked generation ringGenerationMask ≠ 0 ∧
      kernelGenerationNextMasked generation ringGenerationMask ≤ ringGenerationMask := by
  unfold kernelGenerationNextMasked
  split_ifs with hz
  · exact ⟨by simp, by decide⟩
  · exact ⟨hz, Nat.lt_succ_iff.1 (Nat.mod_lt _ (by simp))⟩

def RingState.placed (s : RingState) (n : ℕ) (r : KernelRing) : RingState :=
  ((s.setArea r.area fun area => { area with
    childReferences := area.childReferences + 1 }).setRing n fun _ => r).initQueues n

structure Placeable (s : RingState) (n : ℕ) (r : KernelRing) : Prop where
  sound : RingSound s
  slot : n < kernelRingMax
  directory : s.ringDirectory (n / ringLeafEntries) = true
  free : (s.ring n).state = .free
  opened : r.state = .open
  fits : RingFits (s.area r.area).byteSize r
  apart : ∀ m, (s.ring m).state ≠ .free → Apart r (s.ring m)

theorem Placeable.placed (h : Placeable s n r) :
    RingSound { s.placed n r with activeRings := s.activeRings + 1 } := by
  have hself : (s.placed n r).ring n = r := update_self ..
  refine h.sound.fill h.slot h.directory h.free
    (initQueues_healthy h.sound.healthy (h.sound.noWaits h.slot h.free)) (fun _ _ ht => ht)
    (fun m hm => update_of_ne hm _ _) rfl rfl h.sound.next (fun a => ?_) (fun a => ?_) ?_ rfl ?_
    (fun _ => ?_) fun _ m hm => ?_
  · rcases eq_or_ne a r.area with rfl | hne
    · simp [RingState.placed, RingState.initQueues, RingState.withPool, RingState.setRing,
        RingState.setArea]
    · simp [RingState.placed, RingState.initQueues, RingState.withPool, RingState.setRing,
        RingState.setArea, update_of_ne hne]
  · dsimp only
    rw [hself]
    rcases eq_or_ne a r.area with rfl | hne
    · simp [RingState.placed, RingState.initQueues, RingState.withPool, RingState.setRing,
        RingState.setArea, h.opened]
    · simp [RingState.placed, RingState.initQueues, RingState.withPool, RingState.setRing,
        RingState.setArea, update_of_ne hne, hne.symm]
  · dsimp only
    rw [hself]
    simp [h.opened]
  · dsimp only
    rw [hself]
    simp [h.opened]
  · dsimp only
    rw [hself]
    exact h.fits
  · dsimp only
    rw [hself]
    exact h.apart m hm

theorem Rewritten.refl (s : RingState) (a first last : ℕ) : Rewritten s s a first last :=
  ⟨⟨(s.area a).bytes, by simp [RingState.setArea]⟩, fun _ _ => rfl⟩

theorem Placeable.unmoved (h : Placeable s n r) (hring : ∀ k, k ≠ n → s'.ring k = s.ring k)
    (hbytes : ∀ a i, a = r.area →
      i < r.offset.toNat ∨ r.offset.toNat + kernelRingHeaderSize.toNat ≤ i →
      (s'.area a).bytes i = (s.area a).bytes i)
    (hother : ∀ a, a ≠ r.area → (s'.area a).bytes = (s.area a).bytes) (hm : m ≠ n) :
    Unmoved s s' m := by
  intro hb hk
  rw [hring m hm] at hb hk
  refine ⟨hb, by rw [hring m hm], hring m hm ▸ .refl _, by rw [hring m hm], by rw [hring m hm],
    fun i hi => ?_⟩
  unfold ringByte
  rw [hring m hm]
  by_cases ha : (s.ring m).area = r.area
  · refine hbytes _ _ ha ?_
    have h1 := (h.sound.fits m hb).buffer hk
    have h2 := h.fits.shapes.sum
    rcases h.apart m hb ha.symm with h3 | h3
    · exact .inr (by omega)
    · exact .inl (by omega)
  · rw [hother _ ha]

theorem publishRing_spec (h : Placeable s n r) (grant : RingGrant) :
    ∃ status s', publishRing (s.placed n r) n grant = (status, s') ∧ RingSound s' ∧
      (∀ m, m ≠ n → Unmoved s s' m) ∧ (status = .ok → s'.ring n = r) ∧
      (status ≠ .ok → (s'.ring n).state = .free) := by
  have hself : (s.placed n r).ring n = r := update_self ..
  have hwrite := kernelAreaWrite_spec (s.placed n r) r.area r.offset
    (fun i => (ringHeader r).getD i 0) kernelRingHeaderSize grant.header
  unfold publishRing
  rw [hself]
  dsimp only
  generalize kernelAreaWrite (s.placed n r) r.area r.offset
    (fun i => (ringHeader r).getD i 0) kernelRingHeaderSize grant.header = written at hwrite ⊢
  have hw : Rewritten (s.placed n r) (if grant.syncBefore then written.2 else s.placed n r) r.area
      r.offset.toNat (r.offset.toNat + kernelRingHeaderSize.toNat) := by
    split_ifs
    · exact hwrite
    · exact .refl _ _ _ _
  generalize (if grant.syncBefore then written.2 else s.placed n r) = u at hw ⊢
  obtain ⟨⟨f, rfl⟩, hbytes⟩ := hw
  have hin : ∀ i, i < r.offset.toNat ∨ r.offset.toNat + kernelRingHeaderSize.toNat ≤ i →
      f i = (s.area r.area).bytes i := by
    intro i hi
    have := hbytes i hi
    simpa [RingState.setArea, RingState.placed, RingState.initQueues, RingState.withPool,
      RingState.setRing] using this
  split
  · have hrelease : releaseChild (((s.placed n r).setArea r.area fun area => { area with
        bytes := f }).setRing n fun r => { r with
          producerReferences := 0
          consumerReferences := 0 }) n
        = (.ok, { s.placed n r with
          area := update s.area r.area { s.area r.area with bytes := f }
          ring := update s.ring n { r with
            producerReferences := 0
            consumerReferences := 0
            childReleased := true } }) := by
      unfold releaseChild kernelAreaChildRelease
      simp [RingState.setRing, RingState.setArea, RingState.placed, RingState.initQueues,
        RingState.withPool, h.fits.child, h.fits.area]
    rw [hrelease]
    dsimp only
    rw [freeRing_eq]
    refine ⟨_, _, rfl, ?_, fun m hm => ?_, fun h1 => by simp at h1, fun _ => ?_⟩
    · have hnone := h.sound.noWaits h.slot h.free
      have hp := initQueues_healthy h.sound.healthy hnone
      refine h.sound.fill h.slot h.directory h.free
        (initQueues_healthy (s := s.placed n r) hp hnone) (fun _ _ ht => ht)
        (fun m hm => by simp [update_of_ne hm]) rfl rfl
        (lt_of_le_of_lt (Nat.min_le_right _ _) h.sound.next) (fun a => ?_) (fun a => ?_) ?_ rfl ?_
        (fun h1 => ?_) fun h1 => ?_
      · rcases eq_or_ne a r.area with rfl | hne
        · simp
        · simp [update_of_ne hne]
      · rcases eq_or_ne a r.area with rfl | hne
        · simp [freeRingRecord]
        · simp [update_of_ne hne, freeRingRecord]
      · simp [freeRingRecord, RingState.placed, RingState.initQueues, RingState.withPool,
          RingState.setRing, RingState.setArea]
      · simp [freeRingRecord]
      · exact absurd h1 (by simp [freeRingRecord])
      · exact absurd h1 (by simp [freeRingRecord])
    · refine h.unmoved (fun k hk => ?_) (fun a i ha hi => ?_) (fun a ha => ?_) hm
      · simp [update_of_ne hk]
      · subst ha
        simpa using hin i hi
      · simp [update_of_ne ha]
    · simp [freeRingRecord]
  · refine ⟨_, _, rfl, ?_, fun m hm => ?_, fun _ => hself, fun h1 => absurd rfl h1⟩
    · have hrewritten : Rewritten { s.placed n r with activeRings := s.activeRings + 1 }
          { (s.placed n r).setArea r.area fun area => { area with bytes := f } with
            activeRings := s.activeRings + 1 } r.area r.offset.toNat
          (r.offset.toNat + kernelRingHeaderSize.toNat) := ⟨⟨f, rfl⟩, hbytes⟩
      exact h.placed.rewritten hrewritten
    · refine h.unmoved (fun k hk => update_of_ne hk _ _) (fun a i ha hi => ?_) (fun a ha => ?_) hm
      · subst ha
        simpa [RingState.setArea] using hin i hi
      · simp [RingState.setArea, RingState.placed, RingState.initQueues, RingState.withPool,
          RingState.setRing, update_of_ne ha]

theorem freeRing_quiet (h : RingSound s) (hn : n < kernelRingMax)
    (hd : s.ringDirectory (n / ringLeafEntries) = true) (hf : (s.ring n).state = .free) :
    RingQuiet s (freeRing s n) := by
  rw [freeRing_eq]
  refine ⟨?_, fun m => ?_⟩
  · refine h.fill hn hd hf (initQueues_healthy h.healthy (h.noWaits hn hf)) (fun _ _ ht => ht)
      (fun m hm => update_of_ne hm _ _) rfl rfl (lt_of_le_of_lt (Nat.min_le_right _ _) h.next)
      (fun _ => rfl) (fun a => ?_) ?_ rfl ?_ (fun h1 => ?_) fun h1 => ?_
    · simp [freeRingRecord]
    · simp [freeRingRecord]
    · simp [freeRingRecord]
    · exact absurd h1 (by simp [freeRingRecord])
    · exact absurd h1 (by simp [freeRingRecord])
  · rcases eq_or_ne m n with rfl | hne
    · exact .of_free (by simp [freeRingRecord])
    · exact .of_eq (update_of_ne hne _ _) rfl

theorem kernelRingCreateFlagged_spec (h : RingSound s) (owner area : ℕ)
    (offset elementSize capacity flags : BitVec 32) (grant : RingGrant) :
    ∃ status s' slot, kernelRingCreateFlagged s owner area offset elementSize capacity flags grant
        = (status, s', slot) ∧ RingSound s' ∧ (∀ m, slot ≠ some m → Unmoved s s' m) ∧
      ∀ n, slot = some n → (s.ring n).state = .free ∧ ∃ generation areaGeneration totalSize,
        s'.ring n = newRing generation owner area areaGeneration offset totalSize elementSize
          capacity flags := by
  have hnone : ∀ {status s'}, RingQuiet s s' → ∃ status' s'' slot,
      ((status, s', none) : KernelRingStatus × RingState × Option ℕ) = (status', s'', slot) ∧
        RingSound s'' ∧ (∀ m, slot ≠ some m → Unmoved s s'' m) ∧
        ∀ n, slot = some n → (s.ring n).state = .free ∧ ∃ generation areaGeneration totalSize,
          s''.ring n = newRing generation owner area areaGeneration offset totalSize elementSize
            capacity flags :=
    fun hq => ⟨_, _, _, rfl, hq.sound, fun m _ => hq.unmoved m, fun n hn => by simp at hn⟩
  unfold kernelRingCreateFlagged
  split
  · exact hnone (.refl h)
  rename_i hargs
  push Not at hargs
  rcases hshape : ringShapeValid (flags &&& kernelRingCreateKernelCopy ≠ 0) (s.area area).byteSize
      offset elementSize capacity with _ | totalSize
  · exact hnone (.refl h)
  dsimp only
  split
  · exact hnone (.refl h)
  rename_i hoverlap
  rcases claimRing_spec h grant with ⟨status, s₁, he, hne, hc⟩ | ⟨n, s₁, he, hc, hn, hd, hf⟩
  · rw [he]
    cases status
    case ok => exact absurd rfl hne
    case noSlot => exact hnone hc.quiet
    all_goals exact hnone (hc.quiet.trans (.corrupted hc.quiet.sound))
  rw [he]
  dsimp only
  rw [if_neg (not_not.2 hf)]
  have hfree : (s.ring n).state = .free := by
    rcases hc.ring n with h1 | ⟨h1, -⟩
    · rwa [← h1]
    · exact h1
  have hs₁ := hc.quiet.sound
  unfold kernelAreaChildRetain
  by_cases hlive : (s₁.area area).live = false
  · exact absurd (hc.area ▸ hlive) hargs.2.2.1
  rw [if_neg hlive]
  by_cases hmax : (s₁.area area).childReferences = kernelAreaChildMax
  · rw [if_pos hmax]
    exact hnone (hc.quiet.trans (freeRing_quiet hs₁ hn hd hf))
  rw [if_neg hmax]
  dsimp only
  obtain ⟨hg0, hgmax⟩ := kernelGenerationNextMasked_spec (s₁.ring n).generation
  have hfits : RingFits (s₁.area area).byteSize (newRing
      (kernelGenerationNextMasked (s₁.ring n).generation ringGenerationMask) owner area
      (s₁.area area).generation offset totalSize elementSize capacity flags) := by
    refine ⟨hargs.2.1, ?_, ?_, rfl, ⟨hg0, hgmax⟩, hargs.2.2.2⟩
    · rw [hc.area]
      exact hshape
    · show (0 : BitVec 32) - 0 ≤ capacity
      bv_omega
  have hplace : Placeable s₁ n (newRing
      (kernelGenerationNextMasked (s₁.ring n).generation ringGenerationMask) owner area
      (s₁.area area).generation offset totalSize elementSize capacity flags) := by
    refine ⟨hs₁, hn, hd, hf, rfl, hfits, fun m hm => ?_⟩
    refine apart_of_not_overlap hfits (hs₁.fits m hm) fun hno => hoverlap ?_
    have hsame : s₁.ring m = s.ring m := (hc.ring m).resolve_right fun h1 => hm h1.2
    rw [hsame] at hm hno
    exact ⟨m, List.mem_range.2 (h.backed m hm).2.2, hm, hno.1, hno.2⟩
  obtain ⟨status, s', he, hsound, hunmoved, hok, hbad⟩ := publishRing_spec hplace grant
  have hplaced : ((((s₁.setArea area fun area => { area with
      childReferences := area.childReferences + 1 }).setRing n fun _ => newRing
        (kernelGenerationNextMasked ((s₁.setArea area fun area => { area with
          childReferences := area.childReferences + 1 }).ring n).generation ringGenerationMask) owner
        area (((s₁.setArea area fun area => { area with
          childReferences := area.childReferences + 1 }).area area).generation) offset totalSize
        elementSize capacity flags)).initQueues n) = s₁.placed n (newRing
          (kernelGenerationNextMasked (s₁.ring n).generation ringGenerationMask) owner area
          (s₁.area area).generation offset totalSize elementSize capacity flags) := by
    simp [RingState.placed, RingState.setArea, newRing]
  rw [hplaced, he]
  have hmoved : ∀ m, m ≠ n → Unmoved s s' m := fun m hm =>
    (hc.quiet.unmoved m).trans (hunmoved m hm)
  by_cases hstatus : status = .ok
  · refine ⟨_, _, some n, by rw [if_pos hstatus], hsound, fun m hm => hmoved m fun h1 => hm (h1 ▸ rfl),
      fun k hk => ?_⟩
    cases hk
    exact ⟨hfree, _, _, _, hok hstatus⟩
  · refine ⟨_, _, none, by rw [if_neg hstatus], hsound, fun m _ => ?_, fun k hk => by simp at hk⟩
    rcases eq_or_ne m n with rfl | hne
    · exact .of_free (hbad hstatus)
    · exact hmoved m hne

end

end Astra
