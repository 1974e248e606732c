import AstraKernel.Proofs.AllocLayout
import AstraKernel.Lists

/-!
# One pool: its bitmap, its free list and its counters

`PoolOk m p c L`: the free list is `L`, it holds exactly the slots whose bit is clear, and the
counters are its length. Taking and returning a block keep it, and so does every write elsewhere.
-/

namespace Astra

open List

variable {T : AllocTarget}

theorem bitmapTest_eq (m : Memory) (bitmap i : ℕ) :
    bitmapTest m bitmap i = bitTest (words m bitmap) i := by
  have hi : i % 32 < 32 := Nat.mod_lt _ (by decide)
  rw [Bool.eq_iff_iff, bitmapTest, decide_eq_true_eq, and_one_shiftLeft_ne_zero hi]
  rfl

theorem bitmapTest_bitmapSet (m : Memory) (bitmap i j : ℕ) :
    bitmapTest (bitmapSet m bitmap i) bitmap j = (decide (j = i) || bitmapTest m bitmap j) := by
  rw [bitmapTest_eq, bitmapTest_eq, ← bitTest_bitSet, bitmapSet, words_store32]
  rfl

theorem bitmapTest_bitmapClear (m : Memory) (bitmap i j : ℕ) :
    bitmapTest (bitmapClear m bitmap i) bitmap j = (!decide (j = i) && bitmapTest m bitmap j) := by
  rw [bitmapTest_eq, bitmapTest_eq, ← bitTest_bitClear, bitmapClear, words_store32]
  rfl

variable {bitmap count i x : ℕ}

theorem bitmapTest_congr {m m' : Memory} (hi : i < count)
    (h : ∀ x, bitmap ≤ x → x < bitmap + 4 * bitmapWords count → m' x = m x) :
    bitmapTest m' bitmap i = bitmapTest m bitmap i := by
  have hw : i / 32 < bitmapWords count := by
    unfold bitmapWords
    split_ifs <;> omega
  rw [bitmapTest, bitmapTest, load32_congr (m := m) fun x h1 h2 => h x (by omega) (by omega)]

theorem bitmapSet_of_outside {m : Memory} (hi : i < count)
    (h : x < bitmap ∨ bitmap + 4 * bitmapWords count ≤ x) : bitmapSet m bitmap i x = m x := by
  have hw : i / 32 < bitmapWords count := by
    unfold bitmapWords
    split_ifs <;> omega
  exact store32_of_outside (by omega)

theorem bitmapClear_of_outside {m : Memory} (hi : i < count)
    (h : x < bitmap ∨ bitmap + 4 * bitmapWords count ≤ x) : bitmapClear m bitmap i x = m x := by
  have hw : i / 32 < bitmapWords count := by
    unfold bitmapWords
    split_ifs <;> omega
  exact store32_of_outside (by omega)

def AstraAllocPool.link (p : AstraAllocPool) (m : Memory) (slot : ℕ) : BitVec 32 :=
  load32 m (p.block slot)

theorem occupied_add_length {m : Memory} {p : AstraAllocPool} {L : List ℕ} (hn : L.Nodup)
    (hmem : ∀ slot, slot ∈ L ↔ slot < p.count ∧ bitmapTest m p.bitmap slot = false) :
    occupiedSlots m p + L.length = p.count := by
  have hperm : L.Perm ((List.range p.count).filter fun s => !bitmapTest m p.bitmap s) := by
    rw [perm_ext_iff_of_nodup hn (nodup_range.filter _)]
    intro s
    rw [hmem, mem_filter, mem_range]
    simp
  have hcount := length_eq_countP_add_countP (fun s => bitmapTest m p.bitmap s)
    (l := List.range p.count)
  rw [length_range] at hcount
  rw [hperm.length_eq, ← countP_eq_length_filter, occupiedSlots]
  simpa using hcount.symm

structure PoolOk (m : Memory) (p : AstraAllocPool) (live : BitVec 32) (L : List ℕ) : Prop where
  nodup : L.Nodup
  mem : ∀ slot, slot ∈ L ↔ slot < p.count ∧ bitmapTest m p.bitmap slot = false
  threaded : Threaded (p.link m) (BitVec.ofNat 32) astraAllocEnd p.freeHead L
  freeCount : p.freeCount = BitVec.ofNat 32 L.length
  live : live = BitVec.ofNat 32 (occupiedSlots m p)

namespace PoolOk

variable {m : Memory} {p : AstraAllocPool} {live : BitVec 32} {L : List ℕ}

theorem length_le (h : PoolOk m p live L) : L.length ≤ p.count := by
  have := occupied_add_length h.nodup h.mem
  omega

variable {m' : Memory} {s slot : ℕ}

theorem lt (h : PoolOk m p live L) (hs : slot ∈ L) : slot < p.count :=
  ((h.mem slot).1 hs).1

theorem walk (h : PoolOk m p live L) (hcount : p.count < 2 ^ 32) :
    ∀ {l : List ℕ} {e : BitVec 32} {steps walked : ℕ}, (∀ s ∈ l, s ∈ L) →
      Threaded (p.link m) (BitVec.ofNat 32) astraAllocEnd e l → l.length ≤ steps →
        walkFree m p steps e walked = some (walked + l.length)
  | [], e, steps, walked, _, ht, _ => by
    unfold walkFree
    rw [if_pos (show e = astraAllocEnd from ht)]
    rfl
  | s :: l, e, steps, walked, hl, ht, hsteps => by
    obtain ⟨steps, rfl⟩ : ∃ k, steps = k + 1 := ⟨steps - 1, by simp at hsteps; omega⟩
    obtain ⟨hlt, hbit⟩ := (h.mem s).1 (hl s mem_cons_self)
    have hto : (BitVec.ofNat 32 s).toNat = s := by
      rw [BitVec.toNat_ofNat]
      exact Nat.mod_eq_of_lt (by omega)
    have hne : BitVec.ofNat 32 s ≠ astraAllocEnd := by
      intro he
      have hv : (BitVec.ofNat 32 s).toNat = 4294967295 := congrArg BitVec.toNat he
      omega
    have ih : walkFree m p steps (p.link m s) (walked + 1) = some (walked + 1 + l.length) :=
      h.walk hcount (fun s' hs' => hl s' (mem_cons_of_mem _ hs')) ht.2 (by simpa using hsteps)
    unfold walkFree
    rw [ht.1, if_neg hne, hto, if_neg (by omega), hbit]
    refine (ih.trans ?_)
    rw [length_cons]
    congr 1
    omega

theorem valid (h : PoolOk m p live L) (hcount : p.count < 2 ^ 32) :
    BitVec.ofNat 32 (occupiedSlots m p) = live ∧
      BitVec.ofNat 32 (occupiedSlots m p) + p.freeCount = BitVec.ofNat 32 p.count ∧
        (walkFree m p p.count p.freeHead 0).map (BitVec.ofNat 32) = some p.freeCount := by
  refine ⟨h.live.symm, ?_, ?_⟩
  · rw [h.freeCount, ← BitVec.ofNat_add, occupied_add_length h.nodup h.mem]
  · rw [h.walk hcount (fun s hs => hs) h.threaded h.length_le, h.freeCount]
    simp

theorem congr (h : PoolOk m p live L)
    (htest : ∀ slot < p.count, bitmapTest m' p.bitmap slot = bitmapTest m p.bitmap slot)
    (hlink : ∀ slot ∈ L, p.link m' slot = p.link m slot) : PoolOk m' p live L where
  nodup := h.nodup
  mem slot := by
    rw [h.mem]
    constructor
    · rintro ⟨h1, h2⟩
      exact ⟨h1, (htest slot h1).trans h2⟩
    · rintro ⟨h1, h2⟩
      exact ⟨h1, (htest slot h1).symm.trans h2⟩
  threaded := h.threaded.congr hlink
  freeCount := h.freeCount
  live := by
    have hocc : occupiedSlots m' p = occupiedSlots m p := by
      apply countP_congr
      intro s hs
      rw [htest s (mem_range.1 hs)]
    rw [hocc]
    exact h.live

theorem frame (h : PoolOk m p live L) (hfits : 4 ≤ p.stride)
    (hbitmap : ∀ x, p.bitmap ≤ x → x < p.bitmap + 4 * bitmapWords p.count → m' x = m x)
    (hblocks : ∀ slot ∈ L, ∀ x, p.block slot ≤ x → x < p.block slot + p.stride → m' x = m x) :
    PoolOk m' p live L := by
  refine h.congr (fun slot hs => bitmapTest_congr hs hbitmap) ?_
  intro slot hs
  exact load32_congr fun x h1 h2 => hblocks slot hs x h1 (by omega)

theorem freeHead_eq_end (h : PoolOk m p live L) (hcount : p.count < 2 ^ 32) :
    p.freeHead = astraAllocEnd ↔ L = [] := by
  refine h.threaded.eq_nil fun s hs he => ?_
  have hlt := h.lt hs
  have hv : (BitVec.ofNat 32 s).toNat = 4294967295 := congrArg BitVec.toNat he
  rw [BitVec.toNat_ofNat] at hv
  omega

theorem head_toNat (h : PoolOk m p live (s :: L)) (hcount : p.count < 2 ^ 32) :
    p.freeHead.toNat = s := by
  have hlt := h.lt (mem_cons_self (a := s))
  rw [h.threaded.1, BitVec.toNat_ofNat]
  exact Nat.mod_eq_of_lt (by omega)

theorem link_bitmap (hfits : PoolFits T p)
    (h : ∀ x, x < p.bitmap ∨ p.bitmap + 4 * bitmapWords p.count ≤ x → m' x = m x) :
    p.link m' slot = p.link m slot := by
  refine load32_congr fun x h1 _ => h x (.inr ?_)
  have := p.base_le_block slot
  have := hfits.bitmap
  omega

theorem take (h : PoolOk m p live (s :: L)) (hfits : PoolFits T p) : PoolOk (bitmapSet m p.bitmap s)
      { p with freeHead := p.link m s, freeCount := p.freeCount - 1 } (live + 1) L := by
  have hs := h.lt (mem_cons_self (a := s))
  have hnd := nodup_cons.1 h.nodup
  have hmem : ∀ slot, slot ∈ L ↔
      slot < p.count ∧ bitmapTest (bitmapSet m p.bitmap s) p.bitmap slot = false := by
    intro slot
    rw [bitmapTest_bitmapSet]
    by_cases hslot : slot = s
    · subst hslot
      simp [hnd.1]
    · have := h.mem slot
      simpa [hslot] using this
  have hfree : p.freeCount - 1 = BitVec.ofNat 32 L.length := by
    rw [h.freeCount, length_cons, BitVec.ofNat_add]
    exact BitVec.add_sub_cancel _ _
  have hlink : ∀ slot ∈ L, p.link (bitmapSet m p.bitmap s) slot = p.link m slot :=
    fun slot _ => link_bitmap hfits fun x hx => bitmapSet_of_outside hs hx
  have hocc : occupiedSlots (bitmapSet m p.bitmap s) p = occupiedSlots m p + 1 := by
    have h1 := occupied_add_length h.nodup h.mem
    have h2 := occupied_add_length hnd.2 hmem
    rw [length_cons] at h1
    omega
  refine ⟨hnd.2, hmem, h.threaded.2.congr hlink, hfree, ?_⟩
  show live + 1 = BitVec.ofNat 32 (occupiedSlots (bitmapSet m p.bitmap s) p)
  rw [hocc, BitVec.ofNat_add, ← h.live]
  rfl

theorem give (h : PoolOk m p live L) (hfits : PoolFits T p) (hs : s < p.count)
    (hbit : bitmapTest m p.bitmap s = true) :
    PoolOk (store32 (bitmapClear m p.bitmap s) (p.block s) p.freeHead)
      { p with freeHead := BitVec.ofNat 32 s, freeCount := p.freeCount + 1 } (live - 1)
        (s :: L) := by
  have hsL : s ∉ L := by
    rw [h.mem, hbit]
    simp
  have htest : ∀ slot < p.count,
      bitmapTest (store32 (bitmapClear m p.bitmap s) (p.block s) p.freeHead) p.bitmap slot
        = (!decide (slot = s) && bitmapTest m p.bitmap slot) := by
    intro slot hslot
    rw [← bitmapTest_bitmapClear]
    refine bitmapTest_congr hslot fun x _ hx => store32_of_outside (.inl ?_)
    have := p.base_le_block s
    have := hfits.bitmap
    omega
  generalize hm : store32 (bitmapClear m p.bitmap s) (p.block s) p.freeHead = m' at htest
  have hmem : ∀ slot, slot ∈ s :: L ↔ slot < p.count ∧ bitmapTest m' p.bitmap slot = false := by
    intro slot
    rw [mem_cons, h.mem]
    by_cases hslot : slot = s
    · subst hslot
      simp [hs, htest slot hs]
    · constructor
      · rintro (h1 | ⟨h1, h2⟩)
        · exact absurd h1 hslot
        · exact ⟨h1, by rw [htest slot h1, h2, Bool.and_false]⟩
      · rintro ⟨h1, h2⟩
        rw [htest slot h1] at h2
        exact .inr ⟨h1, by simpa [hslot] using h2⟩
  have hnd : (s :: L).Nodup := nodup_cons.2 ⟨hsL, h.nodup⟩
  have hlink : ∀ slot ∈ L, p.link m' slot = p.link m slot := by
    intro slot hslot
    have hne : slot ≠ s := fun he => hsL (he ▸ hslot)
    have h4 := hfits.stride
    have hclear : p.link (bitmapClear m p.bitmap s) slot = p.link m slot :=
      link_bitmap hfits fun x hx => bitmapClear_of_outside hs hx
    rw [← hclear, ← hm]
    refine load32_store32_of_disjoint ?_
    rcases Nat.lt_or_gt_of_ne hne with hlt | hgt
    · have := p.block_add_stride_le_block hlt
      omega
    · have := p.block_add_stride_le_block hgt
      omega
  have hself : p.link m' s = p.freeHead := by
    rw [← hm]
    exact load32_store32 ..
  have hocc : occupiedSlots m p = occupiedSlots m' p + 1 := by
    have h1 := occupied_add_length h.nodup h.mem
    have h2 := occupied_add_length hnd hmem
    rw [length_cons] at h2
    omega
  refine ⟨hnd, hmem, ⟨rfl, ?_⟩, ?_, ?_⟩
  · show Threaded (p.link m') _ _ (p.link m' s) L
    rw [hself]
    exact h.threaded.congr hlink
  · show p.freeCount + 1 = _
    rw [h.freeCount, length_cons, BitVec.ofNat_add]
    rfl
  · show live - 1 = BitVec.ofNat 32 (occupiedSlots m' p)
    rw [h.live, hocc, BitVec.ofNat_add]
    exact BitVec.add_sub_cancel _ _

end PoolOk

/-! ## A fresh pool -/

theorem threadSlots_spec {p : AstraAllocPool} (hstride : 4 ≤ p.stride) :
    ∀ (n : ℕ) (head : BitVec 32) (m : Memory) (L : List ℕ), n ≤ p.count →
      Threaded (p.link m) (BitVec.ofNat 32) astraAllocEnd head L → (∀ s ∈ L, n ≤ s) →
        Threaded (p.link (threadSlots p n head m).2) (BitVec.ofNat 32) astraAllocEnd
            (threadSlots p n head m).1 (List.range n ++ L) ∧
          ∀ x, x < p.base ∨ p.base + p.count * p.stride ≤ x → (threadSlots p n head m).2 x = m x
  | 0, head, m, L, _, ht, _ => by
    rw [range_zero, nil_append]
    exact ⟨ht, fun _ _ => rfl⟩
  | n + 1, head, m, L, hn, ht, hL => by
    have hlink : ∀ s ∈ L, p.link (store32 m (p.block n) head) s = p.link m s := by
      intro s hs
      have hlt : n < s := hL s hs
      have := p.block_add_stride_le_block hlt
      exact load32_store32_of_disjoint (by omega)
    have hself : p.link (store32 m (p.block n) head) n = head := load32_store32 ..
    have ht' : Threaded (p.link (store32 m (p.block n) head)) (BitVec.ofNat 32) astraAllocEnd
        (BitVec.ofNat 32 n) (n :: L) := by
      refine ⟨rfl, ?_⟩
      rw [hself]
      exact ht.congr hlink
    have hL' : ∀ s ∈ n :: L, n ≤ s := by
      intro s hs
      rcases mem_cons.1 hs with rfl | hs
      · exact le_rfl
      · exact Nat.le_of_succ_le (hL s hs)
    obtain ⟨h1, h2⟩ := threadSlots_spec hstride n _ _ _ (Nat.le_of_succ_le hn) ht' hL'
    have hlist : List.range (n + 1) ++ L = List.range n ++ n :: L := by
      rw [range_succ, append_assoc]
      rfl
    rw [threadSlots, hlist]
    refine ⟨h1, fun x hx => (h2 x hx).trans (store32_of_outside ?_)⟩
    have := p.base_le_block n
    have : p.block n + p.stride ≤ p.base + p.count * p.stride :=
      AstraAllocPool.block_add_stride_le hn
    omega

theorem initPool_shape (p : AstraAllocPool) (m : Memory) : (initPool p m).1.shape = p.shape := rfl

theorem initPool_ok {p : AstraAllocPool} {m : Memory} (hfits : PoolFits T p)
    (hzero : ∀ x, p.bitmap ≤ x → x < p.bitmap + 4 * bitmapWords p.count → m x = 0) :
    PoolOk (initPool p m).2 (initPool p m).1 0 (List.range p.count) ∧
      ∀ x, x < p.base ∨ p.base + p.count * p.stride ≤ x → (initPool p m).2 x = m x := by
  obtain ⟨ht, hout⟩ := threadSlots_spec hfits.stride p.count astraAllocEnd m [] le_rfl rfl
    (by simp)
  have hbit : ∀ slot < p.count, bitmapTest (initPool p m).2 p.bitmap slot = false := by
    intro slot hs
    have hcleared : bitmapTest (initPool p m).2 p.bitmap slot
        = bitmapTest (fun _ => 0) p.bitmap slot := by
      refine bitmapTest_congr hs fun x h1 h2 => ?_
      have := hfits.bitmap
      exact (hout x (.inl (by omega))).trans (hzero x h1 h2)
    rw [hcleared]
    simp [bitmapTest, load32]
  have hmem : ∀ slot, slot ∈ List.range p.count ↔
      slot < p.count ∧ bitmapTest (initPool p m).2 p.bitmap slot = false := by
    intro slot
    rw [mem_range]
    exact ⟨fun h => ⟨h, hbit slot h⟩, fun h => h.1⟩
  refine ⟨⟨nodup_range, hmem, ?_, ?_, ?_⟩, hout⟩
  · rw [append_nil] at ht
    exact ht
  · rw [length_range]
    rfl
  · have hocc := occupied_add_length nodup_range hmem
    rw [length_range] at hocc
    have h0 : occupiedSlots (initPool p m).2 (initPool p m).1 = 0 := by
      have : occupiedSlots (initPool p m).2 p = 0 := by omega
      exact this
    rw [h0]
    rfl

theorem initPools_ok {stop : ℕ} : ∀ {pools : List AstraAllocPool} {cursor : ℕ} {m : Memory},
    PoolsPlaced T stop cursor pools → (∀ x, cursor ≤ x → x < stop → m x = 0) →
      (initPools pools m).1.map (·.shape) = pools.map (·.shape) ∧
      (∀ q ∈ (initPools pools m).1, ∃ L, PoolOk (initPools pools m).2 q 0 L) ∧
        ∀ x, x < cursor → (initPools pools m).2 x = m x
  | [], cursor, m, _, _ => ⟨rfl, by simp [initPools], fun _ _ => rfl⟩
  | p :: pools, cursor, m, h, hzero => by
    obtain ⟨hfits, hcur, hrest⟩ := h
    have hb := hfits.bitmap
    have hle := hrest.le
    obtain ⟨hok, hout⟩ := initPool_ok (m := m) hfits fun x h1 h2 =>
      hzero x (by omega) (by omega)
    obtain ⟨hshape, hall, hframe⟩ := initPools_ok (m := (initPool p m).2) hrest fun x h1 h2 =>
      (hout x (.inr h1)).trans (hzero x (by omega) h2)
    rw [initPools]
    refine ⟨?_, ?_, ?_⟩
    · simp [hshape, initPool_shape]
    · intro q hq
      rcases mem_cons.1 hq with rfl | hq
      · refine ⟨_, hok.frame hfits.stride ?_ ?_⟩
        · intro x _ h2
          have h2 : x < p.bitmap + 4 * bitmapWords p.count := h2
          exact hframe x (by omega)
        · intro slot hs x _ h2
          have hend := AstraAllocPool.block_add_stride_le (p := p) (mem_range.1 hs)
          have h2 : x < p.block slot + p.stride := h2
          exact hframe x (by omega)
      · exact hall q hq
    · intro x hx
      exact (hframe x (by omega)).trans (hout x (.inl (by omega)))

end Astra
