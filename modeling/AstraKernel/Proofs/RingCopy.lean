import AstraKernel.Circular
import AstraKernel.Proofs.RingCreate

/-!
# Copies into and out of a ring's buffer

The buffer of a kernel-copy ring is a circular buffer of its area's bytes. A copy reads a window of
the stream, or puts its bytes at their positions; one that the area cuts short has touched no other
positions.
-/

namespace Astra

open Function List

section

variable {s s' s₁ : RingState} {n m a : ℕ} {r : KernelRing} {byteSize : BitVec 32}

section

variable (h : RingFits byteSize r)
include h

variable (position : BitVec 32)

theorem copyIndex_toNat : (copyIndex r position).toNat = position.toNat % r.capacity.toNat := by
  obtain ⟨e, -, he⟩ := h.shapes.power
  have htwo := h.shapes.two
  unfold copyIndex
  rw [BitVec.toNat_and, show (r.capacity - 1).toNat = r.capacity.toNat - 1 by bv_omega, he,
    Nat.and_two_pow_sub_one_eq_mod]

theorem copyIndex_lt : (copyIndex r position).toNat < r.capacity.toNat := by
  have htwo := h.shapes.two
  rw [copyIndex_toNat h]
  exact Nat.mod_lt _ (by omega)

theorem copyFirst_toNat (position length : BitVec 32) : (copyFirst r position length).toNat
      = min length.toNat (r.capacity.toNat - (copyIndex r position).toNat) := by
  have hlt := copyIndex_lt h position
  unfold copyFirst
  split_ifs with hle
  · rw [Nat.min_eq_left (by bv_omega)]
  · rw [Nat.min_eq_right (by bv_omega)]
    bv_omega

theorem RingFits.address (hk : r.kernelCopy = true)
    (index size : BitVec 32) (hle : index.toNat + size.toNat ≤ r.capacity.toNat) :
    (r.offset + kernelRingHeaderSize + index).toNat
        = r.offset.toNat + kernelRingHeaderSize.toNat + index.toNat ∧
      r.offset + kernelRingHeaderSize + index ≤ byteSize ∧
      size ≤ byteSize - (r.offset + kernelRingHeaderSize + index) := by
  have h1 := h.buffer hk
  have h2 := h.shapes.inside
  have h3 : kernelRingHeaderSize.toNat = 64 := rfl
  refine ⟨by bv_omega, by bv_omega, by bv_omega⟩

theorem RingFits.start (hk : r.kernelCopy = true) (size : BitVec 32)
    (hle : size.toNat ≤ r.capacity.toNat) :
    (r.offset + kernelRingHeaderSize).toNat = r.offset.toNat + kernelRingHeaderSize.toNat ∧
      r.offset + kernelRingHeaderSize ≤ byteSize ∧
      size ≤ byteSize - (r.offset + kernelRingHeaderSize) := by
  have h0 := h.address hk 0#32 size (by simpa using hle)
  rwa [BitVec.add_zero] at h0

end

theorem kernelAreaRead_spec {offset size : BitVec 32} (hlive : (s.area a).live = true)
    (h0 : size ≠ 0) (h1 : offset ≤ (s.area a).byteSize) (h2 : size ≤ (s.area a).byteSize - offset) :
    kernelAreaRead s a offset size
      = (.ok, (List.range size.toNat).map fun i => (s.area a).bytes (offset.toNat + i)) := by
  unfold kernelAreaRead
  rw [if_neg]
  rintro (h3 | h3)
  · exact h0 h3
  · exact h3 ⟨hlive, h1, h2⟩

theorem copyRangeRead_spec (h : RingSound s) (hb : (s.ring n).state ≠ .free)
    (hk : (s.ring n).kernelCopy = true) {position length : BitVec 32} (h0 : length ≠ 0)
    (hle : length ≤ (s.ring n).capacity) :
    ((s.area (s.ring n).area).live = true → copyRangeRead s n position length true
        = (.ok, window (ringByte s n) (s.ring n).capacity.toNat position.toNat length.toNat)) ∧
      ∀ sync, sync = false ∨ (s.area (s.ring n).area).live = false →
        (copyRangeRead s n position length sync).1 = .corrupt := by
  have hf := h.fits n hb
  have hlt := copyIndex_lt hf position
  have hfirst := copyFirst_toNat hf position length
  have hle' : length.toNat ≤ (s.ring n).capacity.toNat := hle
  have hpos : 0 < length.toNat := by bv_omega
  have hbyte : ringByte s n = fun i => (s.area (s.ring n).area).bytes
    ((s.ring n).offset.toNat + kernelRingHeaderSize.toNat + i) := rfl
  constructor
  · intro hlive
    obtain ⟨ha, hin, hroom⟩ := hf.address hk (copyIndex (s.ring n) position)
      (copyFirst (s.ring n) position length) (by omega)
    have hread := kernelAreaRead_spec hlive (by bv_omega) hin hroom
    rw [window_segments (copyIndex_toNat hf position).symm (by omega) hle' hfirst]
    unfold copyRangeRead
    rw [if_neg (by simp), hread]
    dsimp only
    split
    · rename_i hall
      rw [hall, Nat.sub_self, range_zero, map_nil, append_nil, ha]
      simp only [hbyte, Nat.add_assoc]
    · obtain ⟨ha', hin', hroom'⟩ := hf.start hk (length - copyFirst (s.ring n) position length)
        (by bv_omega)
      rw [kernelAreaRead_spec hlive (by bv_omega) hin' hroom', ha, ha']
      simp only [hbyte, Nat.add_assoc]
      rw [show (length - copyFirst (s.ring n) position length).toNat
        = length.toNat - (copyFirst (s.ring n) position length).toNat by bv_omega]
  · intro sync hs
    unfold copyRangeRead kernelAreaRead
    rcases hs with rfl | hlive
    · simp
    · cases sync
      · simp
      · simp [rangeValid, hlive, copyStatus]

theorem Rewritten.ring {first last : ℕ} (h : Rewritten s s' a first last) : s'.ring = s.ring := by
  obtain ⟨f, rfl⟩ := h.eq
  rfl

theorem Rewritten.mono {first last first' last' : ℕ} (h : Rewritten s s' a first last)
    (hf : first' ≤ first) (hl : last ≤ last') : Rewritten s s' a first' last' :=
  ⟨h.eq, fun i hi => h.bytes i (by omega)⟩

theorem Rewritten.trans {first last : ℕ} (h : Rewritten s s₁ a first last)
    (h' : Rewritten s₁ s' a first last) : Rewritten s s' a first last := by
  refine ⟨?_, fun i hi => (h'.bytes i hi).trans (h.bytes i hi)⟩
  obtain ⟨f, rfl⟩ := h.eq
  obtain ⟨f', rfl⟩ := h'.eq
  exact ⟨f', by simp [RingState.setArea]⟩

theorem kernelAreaWrite_full (s : RingState) (a : ℕ) (offset : BitVec 32) (source : ℕ → BitVec 8)
    (size : BitVec 32) (granted : ℕ) :
    ∃ status s', kernelAreaWrite s a offset source size granted = (status, s') ∧
      Rewritten s s' a offset.toNat (offset.toNat + size.toNat) ∧
      (status = .ok → ∀ i < size.toNat, (s'.area a).bytes (offset.toNat + i) = source i) := by
  refine ⟨(kernelAreaWrite s a offset source size granted).1,
    (kernelAreaWrite s a offset source size granted).2, rfl,
    kernelAreaWrite_spec s a offset source size granted, ?_⟩
  unfold kernelAreaWrite
  split
  · exact fun h1 => by simp at h1
  intro h1 i hi
  have hg : size.toNat ≤ granted := by
    by_contra hg
    simp [if_neg hg] at h1
  rw [Nat.min_eq_left hg]
  simp [RingState.setArea, hi]

theorem copyStatus_ok {status : KernelAreaStatus} (h : copyStatus status = .ok) : status = .ok := by
  cases status <;> simp_all [copyStatus]

theorem copyRangeWrite_spec (h : RingSound s) (hb : (s.ring n).state ≠ .free)
    (hk : (s.ring n).kernelCopy = true) {position length : BitVec 32}
    (hle : length ≤ (s.ring n).capacity) (source : ℕ → BitVec 8) (grant : CopyGrant) :
    ∃ status s', copyRangeWrite s n position source length grant = (status, s') ∧
      Rewritten s s' (s.ring n).area (s.ring n).offset.toNat
        ((s.ring n).offset.toNat + (s.ring n).totalSize.toNat) ∧
      Touched (ringByte s n) (ringByte s' n) (s.ring n).capacity.toNat position.toNat
        length.toNat ∧
      (status = .ok → Stored (ringByte s n) (ringByte s' n) (s.ring n).capacity.toNat
        position.toNat length.toNat source) ∧
      (status = .ok ∨ status = .noSlot ∨ status = .corrupt) := by
  have hf := h.fits n hb
  have hbuffer := hf.buffer hk
  have hlt := copyIndex_lt hf position
  have hindex := copyIndex_toNat hf position
  have hfirst := copyFirst_toNat hf position length
  have hle' : length.toNat ≤ (s.ring n).capacity.toNat := hle
  have hstatus : ∀ status, copyStatus status = .ok ∨ copyStatus status = .noSlot
      ∨ copyStatus status = .corrupt := by
    intro status
    cases status <;> simp [copyStatus]
  obtain ⟨ha, -, -⟩ := hf.address hk (copyIndex (s.ring n) position)
    (copyFirst (s.ring n) position length) (by omega)
  obtain ⟨ha', -, -⟩ := hf.start hk (length - copyFirst (s.ring n) position length) (by bv_omega)
  have hrest : (length - copyFirst (s.ring n) position length).toNat
      = length.toNat - (copyFirst (s.ring n) position length).toNat := by bv_omega
  have hsame : ∀ {s₁ : RingState}, s₁.ring = s.ring → ringByte s₁ n = fun i =>
      (s₁.area (s.ring n).area).bytes
        ((s.ring n).offset.toNat + kernelRingHeaderSize.toNat + i) := by
    intro s₁ hr
    funext i
    rw [ringByte, hr]
  unfold copyRangeWrite
  dsimp only
  split
  · exact ⟨_, _, rfl, .refl _ _ _ _, fun _ _ _ => rfl, fun h1 => by simp at h1, by simp⟩
  obtain ⟨status₁, s₁, he₁, hw₁, hb₁⟩ := kernelAreaWrite_full s (s.ring n).area
    ((s.ring n).offset + kernelRingHeaderSize + copyIndex (s.ring n) position) source
    (copyFirst (s.ring n) position length) grant.first
  rw [he₁]
  rw [ha] at hw₁ hb₁
  have hrange₁ : Rewritten s s₁ (s.ring n).area (s.ring n).offset.toNat
      ((s.ring n).offset.toNat + (s.ring n).totalSize.toNat) := hw₁.mono (by omega) (by omega)
  have hkept₁ : ∀ j, j < (copyIndex (s.ring n) position).toNat
      ∨ (copyIndex (s.ring n) position).toNat + (copyFirst (s.ring n) position length).toNat ≤ j →
      ringByte s₁ n j = ringByte s n j := by
    intro j hj
    rw [hsame hw₁.ring]
    exact hw₁.bytes _ (by omega)
  have htouched₁ : Touched (ringByte s n) (ringByte s₁ n) (s.ring n).capacity.toNat position.toNat
      length.toNat :=
    .of_segments hindex.symm (by omega) hle' hfirst fun j _ hj _ => hkept₁ j hj
  cases status₁
  case ok =>
    dsimp only
    have hput₁ : ∀ i < (copyFirst (s.ring n) position length).toNat,
        ringByte s₁ n ((copyIndex (s.ring n) position).toNat + i) = source i := by
      intro i hi
      rw [hsame hw₁.ring]
      rw [← hb₁ rfl i hi]
      simp only [Nat.add_assoc]
    split
    · rename_i hall
      refine ⟨_, _, rfl, hrange₁, htouched₁, fun _ => ?_, by simp⟩
      refine .of_segments hindex.symm (by omega) hle' hfirst hput₁ (fun i hi => ?_)
        fun j _ hj _ => hkept₁ j hj
      rw [hall, Nat.sub_self] at hi
      omega
    · obtain ⟨status, s', he, hw, hb'⟩ := kernelAreaWrite_full s₁ (s.ring n).area
        ((s.ring n).offset + kernelRingHeaderSize)
        (fun i => source ((copyFirst (s.ring n) position length).toNat + i))
        (length - copyFirst (s.ring n) position length) grant.second
      rw [he]
      rw [ha', hrest] at hw
      rw [ha', hrest] at hb'
      have hring : s'.ring = s.ring := hw.ring.trans hw₁.ring
      have hkept : ∀ j, length.toNat - (copyFirst (s.ring n) position length).toNat ≤ j →
          ringByte s' n j = ringByte s₁ n j := by
        intro j hj
        rw [hsame hring, hsame hw₁.ring]
        exact hw.bytes _ (by omega)
      refine ⟨_, _, rfl, hrange₁.trans (hw.mono (by omega) (by omega)), ?_, fun hok => ?_,
        hstatus status⟩
      · exact .of_segments hindex.symm (by omega) hle' hfirst fun j _ hj hj' =>
          (hkept j hj').trans (hkept₁ j hj)
      · refine .of_segments hindex.symm (by omega) hle' hfirst (fun i hi => ?_) (fun i hi => ?_)
          fun j _ hj hj' => (hkept j hj').trans (hkept₁ j hj)
        · rw [hkept _ (by omega)]
          exact hput₁ i hi
        · rw [hsame hring]
          exact hb' (copyStatus_ok hok) i hi
  all_goals exact ⟨_, _, rfl, hrange₁, htouched₁, fun h1 => by simp [copyStatus] at h1, hstatus _⟩

theorem Rewritten.others (h : RingSound s) (hb : (s.ring n).state ≠ .free)
    (hw : Rewritten s s' (s.ring n).area (s.ring n).offset.toNat
      ((s.ring n).offset.toNat + (s.ring n).totalSize.toNat)) (hm : m ≠ n) : Unmoved s s' m := by
  refine hw.unmoved h fun hbm ha => ?_
  have := h.apart m n hbm hb hm ha
  omega

theorem publishPosition_spec (h : RingSound s) (hb : (s.ring n).state ≠ .free)
    (hk : (s.ring n).kernelCopy = true) {field : BitVec 32}
    (hfield : field.toNat + 4 ≤ kernelRingHeaderSize.toNat) (position : BitVec 32)
    (grant : PublishGrant) :
    ∃ status s', publishPosition s n field position grant = (status, s') ∧
      Rewritten s s' (s.ring n).area (s.ring n).offset.toNat
        ((s.ring n).offset.toNat + (s.ring n).totalSize.toNat) ∧
      (∀ i, ringByte s' n i = ringByte s n i) ∧
      (status = .ok → (s.area (s.ring n).area).live = true) := by
  have hf := h.fits n hb
  have hbuffer := hf.buffer hk
  have hinside := hf.shapes.inside
  have hheader : kernelRingHeaderSize.toNat = 64 := rfl
  have haddress : ((s.ring n).offset + field).toNat = (s.ring n).offset.toNat + field.toNat := by
    bv_omega
  obtain ⟨status, s', he, hw, -⟩ := kernelAreaWrite_full s (s.ring n).area
    ((s.ring n).offset + field) (fun i => (wordBytes position).getD i 0) 4 grant.position
  have hlive : status = .ok → (s.area (s.ring n).area).live = true := by
    rintro rfl
    unfold kernelAreaWrite at he
    by_cases hgate : (4 : BitVec 32) = 0 ∨ ¬ rangeValid (s.area (s.ring n).area)
        ((s.ring n).offset + field) 4
    · rw [if_pos hgate] at he
      simp at he
    · push Not at hgate
      exact hgate.2.1
  have hbytes : ∀ i, ringByte s' n i = ringByte s n i := by
    intro i
    have hring := hw.ring
    rw [ringByte, ringByte, hring]
    refine hw.bytes _ (.inr ?_)
    rw [haddress]
    have h4 : (4 : BitVec 32).toNat = 4 := rfl
    omega
  have hrange : Rewritten s s' (s.ring n).area (s.ring n).offset.toNat
      ((s.ring n).offset.toNat + (s.ring n).totalSize.toNat) := by
    refine hw.mono ?_ ?_
    · rw [haddress]
      omega
    · rw [haddress]
      have h4 : (4 : BitVec 32).toNat = 4 := rfl
      omega
  unfold publishPosition
  rw [he]
  cases status
  case ok => exact ⟨_, _, rfl, hrange, hbytes, fun _ => hlive rfl⟩
  all_goals exact ⟨_, _, rfl, hrange, hbytes, fun h1 => by simp at h1⟩

end

end Astra
