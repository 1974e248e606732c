import AstraKernel.Alloc.State

/-!
# The layout of an arena

`PoolsPlaced` says that pools lie one behind the other from a cursor on, each its bitmap and then its
blocks; the layout walk places them so (`layoutClasses_placed`).
-/

namespace Astra

variable {T : AllocTarget}

structure PoolFits (T : AllocTarget) (p : AstraAllocPool) : Prop where
  stride : 4 ≤ p.stride
  usable : p.usable ≤ p.stride
  usable_pos : 0 < p.usable
  count_pos : 0 < p.count
  count : p.count < 2 ^ 32
  bitmap : p.bitmap + 4 * bitmapWords p.count ≤ p.base
  base_dvd : T.alignment ∣ p.base
  stride_dvd : T.alignment ∣ p.stride

def PoolsPlaced (T : AllocTarget) (stop : ℕ) : ℕ → List AstraAllocPool → Prop
  | cursor, [] => cursor ≤ stop
  | cursor, p :: pools => PoolFits T p ∧ cursor ≤ p.bitmap ∧
      PoolsPlaced T stop (p.base + p.count * p.stride) pools

variable {alignment slot stop : ℕ}

theorem alignUp_spec {value out : ℕ} (ha : 0 < alignment)
    (h : alignUp T value alignment = some out) : value ≤ out ∧ alignment ∣ out := by
  unfold alignUp at h
  split_ifs at h
  cases h
  refine ⟨?_, Nat.dvd_mul_left _ _⟩
  have := Nat.div_add_mod (value + (alignment - 1)) alignment
  have := Nat.mod_lt (value + (alignment - 1)) ha
  have := Nat.mul_comm alignment ((value + (alignment - 1)) / alignment)
  omega

theorem reserve_spec {cursor count bytes offset cursor' : ℕ} (ha : 0 < alignment)
    (h : reserve T cursor count bytes alignment = some (offset, cursor')) :
    cursor ≤ offset ∧ alignment ∣ offset ∧ cursor' = offset + count * bytes := by
  unfold reserve at h
  split at h
  · cases h
  · rename_i start hs
    split_ifs at h
    cases h
    obtain ⟨h1, h2⟩ := alignUp_spec ha hs
    exact ⟨h1, h2, rfl⟩

theorem AllocTarget.alignment_pos (T : AllocTarget) : 0 < T.alignment := by
  obtain ⟨k, hk⟩ := T.alignment_pow
  rw [hk]
  exact Nat.two_pow_pos k

theorem classStride_spec {size : ℕ} (hs : 0 < size) (h : classStride T size ≠ 0) :
    4 ≤ classStride T size ∧ size ≤ classStride T size ∧ T.alignment ∣ classStride T size := by
  unfold classStride at h ⊢
  cases ha : alignUp T size T.alignment with
  | none => simp [ha] at h
  | some stride =>
    simp only [ha] at h ⊢
    obtain ⟨h1, h2⟩ := alignUp_spec T.alignment_pos ha
    by_cases hbig : stride > 2 ^ 32 - 1
    · rw [if_pos hbig] at h
      exact absurd rfl h
    rw [if_neg hbig]
    split_ifs with hsmall
    · refine ⟨le_rfl, by omega, ?_⟩
      -- an alignment below four divides it
      obtain ⟨k, hk⟩ := T.alignment_pow
      rw [hk] at h2 ⊢
      have hle : 2 ^ k ≤ stride := Nat.le_of_dvd (by omega) h2
      have hk2 : k < 2 := by
        by_contra hge
        have := Nat.pow_le_pow_right (show 0 < 2 by decide) (show 2 ≤ k by omega)
        omega
      interval_cases k
      · decide
      · decide
    · exact ⟨by omega, h1, h2⟩

theorem layoutClasses_placed {arena : ℕ} (harena : T.alignment ∣ arena) :
    ∀ {classes : List AstraAllocClass} {previous : Option AstraAllocClass} {cursor stop : ℕ}
      {pools : List AstraAllocPool}, layoutClasses T arena previous cursor classes
        = some (pools, stop) → PoolsPlaced T (arena + stop) (arena + cursor) pools ∧
          pools.length = classes.length
  | [], previous, cursor, stop, pools, h => by
    cases h
    exact ⟨le_rfl, rfl⟩
  | c :: classes, previous, cursor, stop, pools, h => by
    unfold layoutClasses at h
    simp only at h
    split_ifs at h with hc
    push Not at hc
    obtain ⟨hsize, hcount, hstride, -⟩ := hc
    split at h
    · cases h
    rename_i bitmapOffset cursor1 hbitmap
    split at h
    · cases h
    rename_i blocksOffset cursor2 hblocks
    split at h
    · cases h
    rename_i rest stop' hrest
    cases h
    obtain ⟨hb1, -, rfl⟩ := reserve_spec T.wordAlignment_pos hbitmap
    obtain ⟨hb2, hd2, rfl⟩ := reserve_spec T.alignment_pos hblocks
    obtain ⟨hplaced, hlen⟩ := layoutClasses_placed harena hrest
    have hsize0 : 0 < c.size.toNat :=
      Nat.pos_of_ne_zero fun h0 => hsize (BitVec.eq_of_toNat_eq h0)
    have hcount0 : 0 < c.count.toNat :=
      Nat.pos_of_ne_zero fun h0 => hcount (BitVec.eq_of_toNat_eq h0)
    obtain ⟨hs1, hs2, hs3⟩ := classStride_spec hsize0 hstride
    refine ⟨⟨⟨hs1, hs2, hsize0, hcount0, c.count.isLt, ?_, Nat.dvd_add harena hd2, hs3⟩, ?_, ?_⟩, ?_⟩
    · show arena + bitmapOffset + 4 * bitmapWords c.count.toNat ≤ arena + blocksOffset
      omega
    · show arena + cursor ≤ arena + bitmapOffset
      omega
    · rw [show arena + blocksOffset + c.count.toNat * classStride T c.size.toNat
        = arena + (blocksOffset + c.count.toNat * classStride T c.size.toNat) by omega]
      exact hplaced
    · simp [hlen]

structure PlacedAt (T : AllocTarget) (low high n : ℕ) (pool : ℕ → AstraAllocPool) : Prop where
  fits : ∀ i < n, PoolFits T (pool i)
  low : ∀ i < n, low ≤ (pool i).bitmap
  high : ∀ i < n, (pool i).base + (pool i).count * (pool i).stride ≤ high
  order : ∀ i j, i < j → j < n →
    (pool i).base + (pool i).count * (pool i).stride ≤ (pool j).bitmap

theorem PoolsPlaced.le : ∀ {pools : List AstraAllocPool} {cursor : ℕ},
    PoolsPlaced T stop cursor pools → cursor ≤ stop
  | [], _, h => h
  | p :: pools, cursor, h => by
    have := h.2.2.le
    have := h.1.bitmap
    have := h.2.1
    omega

theorem PoolsPlaced.at : ∀ {pools : List AstraAllocPool} {cursor : ℕ},
    PoolsPlaced T stop cursor pools →
      PlacedAt T cursor stop pools.length (fun i => pools.getD i noPool)
  | [], _, _ => ⟨by simp, by simp, by simp, by simp⟩
  | p :: pools, cursor, h => by
    have ih := h.2.2.at
    have hp := h.1.bitmap
    refine ⟨?_, ?_, ?_, ?_⟩
    · rintro (_ | i) hi
      · exact h.1
      · exact ih.fits i (Nat.lt_of_succ_lt_succ hi)
    · rintro (_ | i) hi
      · exact h.2.1
      · have : cursor ≤ p.base + p.count * p.stride := by
          have := h.2.1
          omega
        exact this.trans (ih.low i (Nat.lt_of_succ_lt_succ hi))
    · rintro (_ | i) hi
      · exact h.2.2.le
      · exact ih.high i (Nat.lt_of_succ_lt_succ hi)
    · rintro (_ | i) (_ | j) hij hj
      · omega
      · exact ih.low j (Nat.lt_of_succ_lt_succ hj)
      · omega
      · exact ih.order i j (Nat.lt_of_succ_lt_succ hij) (Nat.lt_of_succ_lt_succ hj)

def AstraAllocPool.shape (p : AstraAllocPool) : ℕ × ℕ × ℕ × ℕ × ℕ :=
  (p.base, p.bitmap, p.stride, p.count, p.usable)

theorem PoolFits.congr {p q : AstraAllocPool} (h : PoolFits T p) (hs : q.shape = p.shape) :
    PoolFits T q := by
  simp only [AstraAllocPool.shape, Prod.mk.injEq] at hs
  obtain ⟨h1, h2, h3, h4, h5⟩ := hs
  refine ⟨?_, ?_, ?_, ?_, ?_, ?_, ?_, ?_⟩
  · rw [h3]
    exact h.stride
  · rw [h3, h5]
    exact h.usable
  · rw [h5]
    exact h.usable_pos
  · rw [h4]
    exact h.count_pos
  · rw [h4]
    exact h.count
  · rw [h1, h2, h4]
    exact h.bitmap
  · rw [h1]
    exact h.base_dvd
  · rw [h3]
    exact h.stride_dvd

theorem PlacedAt.congr {low high n : ℕ} {pool pool' : ℕ → AstraAllocPool}
    (h : PlacedAt T low high n pool) (hs : ∀ i < n, (pool' i).shape = (pool i).shape) :
    PlacedAt T low high n pool' := by
  have hshape : ∀ i < n, (pool' i).base = (pool i).base ∧ (pool' i).bitmap = (pool i).bitmap ∧
      (pool' i).stride = (pool i).stride ∧ (pool' i).count = (pool i).count := by
    intro i hi
    have := hs i hi
    simp only [AstraAllocPool.shape, Prod.mk.injEq] at this
    exact ⟨this.1, this.2.1, this.2.2.1, this.2.2.2.1⟩
  refine ⟨fun i hi => (h.fits i hi).congr (hs i hi), ?_, ?_, ?_⟩
  · intro i hi
    rw [(hshape i hi).2.1]
    exact h.low i hi
  · intro i hi
    obtain ⟨h1, -, h3, h4⟩ := hshape i hi
    rw [h1, h3, h4]
    exact h.high i hi
  · intro i j hij hj
    obtain ⟨h1, -, h3, h4⟩ := hshape i (hij.trans hj)
    rw [h1, h3, h4, (hshape j hj).2.1]
    exact h.order i j hij hj

theorem AstraAllocPool.block_add_stride_le {p : AstraAllocPool} (h : slot < p.count) :
    p.block slot + p.stride ≤ p.base + p.count * p.stride := by
  have := Nat.mul_le_mul_right p.stride (show slot + 1 ≤ p.count from h)
  rw [Nat.succ_mul] at this
  unfold AstraAllocPool.block
  omega

theorem AstraAllocPool.block_add_stride_le_block (p : AstraAllocPool) {slot' : ℕ}
    (h : slot < slot') : p.block slot + p.stride ≤ p.block slot' := by
  have := Nat.mul_le_mul_right p.stride (show slot + 1 ≤ slot' from h)
  rw [Nat.succ_mul] at this
  unfold AstraAllocPool.block
  omega

theorem AstraAllocPool.base_le_block (p : AstraAllocPool) (slot : ℕ) : p.base ≤ p.block slot :=
  Nat.le_add_right _ _

namespace PlacedAt

variable {low high n : ℕ} {pool : ℕ → AstraAllocPool}

variable {i j slot slot' : ℕ}

section

variable (h : PlacedAt T low high n pool)
include h

theorem bitmap_apart (hi : i < n) (hj : j < n) (hslot : slot < (pool j).count) :
    (pool i).bitmap + 4 * bitmapWords (pool i).count ≤ (pool j).block slot ∨
      (pool j).block slot + (pool j).stride ≤ (pool i).bitmap := by
  have hb := AstraAllocPool.base_le_block (pool j) slot
  have he := AstraAllocPool.block_add_stride_le hslot
  have hfi := (h.fits i hi).bitmap
  rcases Nat.lt_trichotomy i j with hij | rfl | hji
  · have := h.order i j hij hj
    have := (h.fits j hj).bitmap
    omega
  · omega
  · have := h.order j i hji hi
    omega

theorem bitmaps_apart (hi : i < n) (hj : j < n)
    (hij : i ≠ j) : (pool i).bitmap + 4 * bitmapWords (pool i).count ≤ (pool j).bitmap ∨
      (pool j).bitmap + 4 * bitmapWords (pool j).count ≤ (pool i).bitmap := by
  have hfi := (h.fits i hi).bitmap
  have hfj := (h.fits j hj).bitmap
  rcases Nat.lt_or_gt_of_ne hij with hij | hji
  · have := h.order i j hij hj
    omega
  · have := h.order j i hji hi
    omega

theorem blocks_apart (hi : i < n)
    (hj : j < n) (hs : slot < (pool i).count) (hs' : slot' < (pool j).count)
    (hne : ¬(i = j ∧ slot = slot')) :
    (pool i).block slot + (pool i).stride ≤ (pool j).block slot' ∨
      (pool j).block slot' + (pool j).stride ≤ (pool i).block slot := by
  have hbi := AstraAllocPool.base_le_block (pool i) slot
  have hbj := AstraAllocPool.base_le_block (pool j) slot'
  have hei := AstraAllocPool.block_add_stride_le hs
  have hej := AstraAllocPool.block_add_stride_le hs'
  have hfi := (h.fits i hi).bitmap
  have hfj := (h.fits j hj).bitmap
  rcases Nat.lt_trichotomy i j with hij | rfl | hji
  · have := h.order i j hij hj
    omega
  · rcases Nat.lt_trichotomy slot slot' with hlt | rfl | hgt
    · exact .inl ((pool i).block_add_stride_le_block hlt)
    · exact absurd ⟨rfl, rfl⟩ hne
    · exact .inr ((pool i).block_add_stride_le_block hgt)
  · have := h.order j i hji hi
    omega

theorem block_inj (hi : i < n)
    (hj : j < n) (hs : slot < (pool i).count) (hs' : slot' < (pool j).count)
    (he : (pool i).block slot = (pool j).block slot') : i = j ∧ slot = slot' := by
  by_contra hne
  have h1 := h.blocks_apart hi hj hs hs' hne
  have h2 := (h.fits i hi).stride
  have h3 := (h.fits j hj).stride
  omega

end

end PlacedAt

end Astra
