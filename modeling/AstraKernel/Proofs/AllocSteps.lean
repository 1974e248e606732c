import AstraKernel.Proofs.AllocPool

/-!
# The allocator's calls

`AllocSound` ties the blocks a client has to the bits set in the bitmaps. An allocation that fails
changes counters only (`astraAlloc_cases`); taking a block, returning one and a client's write into
its blocks keep the invariant.
-/

namespace Astra

open Function List

variable {T : AllocTarget} {a a' : AstraAllocator T} {live : List (ℕ × ℕ)} {low high : ℕ}

/-- The slot `slot` of pool `i` is one the allocator has. -/
structure IsSlot (a : AstraAllocator T) (i slot : ℕ) : Prop where
  pool : i < a.poolCount
  slot : slot < (a.pool i).count

structure AllocSound (a : AstraAllocator T) (live : List (ℕ × ℕ)) (low high : ℕ) : Prop where
  pos : a.poolCount ≠ 0
  low_pos : 0 < low
  placed : PlacedAt T low high a.poolCount a.pool
  pools : ∀ i < a.poolCount, ∃ L, PoolOk a.memory (a.pool i) (a.perClass i).live L
  total : liveTotal a a.poolCount = a.metrics.liveBlocks
  blocks : ∀ b ∈ live, ∃ i slot, IsSlot a i slot ∧
    bitmapTest a.memory (a.pool i).bitmap slot = true ∧ b.1 = (a.pool i).block slot ∧
      b.2 ≤ (a.pool i).usable
  held : ∀ i slot, IsSlot a i slot → bitmapTest a.memory (a.pool i).bitmap slot = true →
    (a.pool i).block slot ∈ live.map Prod.fst
  nodup : (live.map Prod.fst).Nodup

structure SameBlocks (a a' : AstraAllocator T) : Prop where
  poolCount : a'.poolCount = a.poolCount
  memory : a'.memory = a.memory
  pool : ∀ i, ∃ nth, a'.pool i = { a.pool i with injectionNth := nth }
  live : ∀ i, (a'.perClass i).live = (a.perClass i).live
  liveBlocks : a'.metrics.liveBlocks = a.metrics.liveBlocks
  tables : a'.poolAt = a.poolAt ∧ a'.metricsAt = a.metricsAt ∧ a'.namesAt = a.namesAt

variable {i pointer slot : ℕ}

theorem liveTotal_add {d : BitVec 32}
    (h : ∀ j, (a'.perClass j).live = (a.perClass j).live + if j = i then d else 0) :
    ∀ n, liveTotal a' n = liveTotal a n + if i < n then d else 0
  | 0 => by simp [liveTotal]
  | n + 1 => by
    rw [liveTotal, liveTotal, liveTotal_add h n, h n]
    rcases Nat.lt_trichotomy i n with hlt | rfl | hgt
    · rw [if_pos hlt, if_neg (show n ≠ i by omega), if_pos (show i < n + 1 by omega)]
      ring
    · rw [if_neg (Nat.lt_irrefl i), if_pos rfl, if_pos (Nat.lt_succ_self i)]
      ring
    · rw [if_neg (show ¬i < n by omega), if_neg (show n ≠ i by omega),
        if_neg (show ¬i < n + 1 by omega)]
      ring

theorem liveTotal_congr (h : ∀ j, (a'.perClass j).live = (a.perClass j).live) :
    ∀ n, liveTotal a' n = liveTotal a n
  | 0 => rfl
  | n + 1 => by rw [liveTotal, liveTotal, liveTotal_congr h n, h n]

theorem AllocSound.same (h : AllocSound a live low high) (hs : SameBlocks a a') :
    AllocSound a' live low high := by
  have hshape : ∀ i, (a'.pool i).shape = (a.pool i).shape := by
    intro i
    obtain ⟨nth, hp⟩ := hs.pool i
    rw [hp]
    rfl
  have hslot : ∀ i slot, IsSlot a' i slot ↔ IsSlot a i slot := by
    intro i slot
    obtain ⟨nth, hp⟩ := hs.pool i
    constructor
    · rintro ⟨h1, h2⟩
      rw [hp] at h2
      exact ⟨hs.poolCount ▸ h1, h2⟩
    · rintro ⟨h1, h2⟩
      refine ⟨hs.poolCount ▸ h1, ?_⟩
      rw [hp]
      exact h2
  refine ⟨hs.poolCount ▸ h.pos, h.low_pos, ?_, ?_, ?_, ?_, ?_, h.nodup⟩
  · rw [hs.poolCount]
    exact h.placed.congr fun i _ => hshape i
  · intro i hi
    rw [hs.poolCount] at hi
    obtain ⟨L, hL⟩ := h.pools i hi
    obtain ⟨nth, hp⟩ := hs.pool i
    rw [hp, hs.memory, hs.live]
    exact ⟨L, hL.nodup, hL.mem, hL.threaded, hL.freeCount, hL.live⟩
  · rw [hs.poolCount, hs.liveBlocks, liveTotal_congr hs.live, h.total]
  · intro b hb
    obtain ⟨i, slot, hi, hbit, hb1, hb2⟩ := h.blocks b hb
    obtain ⟨nth, hp⟩ := hs.pool i
    refine ⟨i, slot, (hslot i slot).2 hi, ?_⟩
    rw [hp, hs.memory]
    exact ⟨hbit, hb1, hb2⟩
  · intro i slot hi hbit
    obtain ⟨nth, hp⟩ := hs.pool i
    rw [hp, hs.memory] at hbit
    rw [hp]
    exact h.held i slot ((hslot i slot).1 hi) hbit

theorem SameBlocks.refl (a : AstraAllocator T) : SameBlocks a a :=
  ⟨rfl, rfl, fun _ => ⟨_, rfl⟩, fun _ => rfl, rfl, rfl, rfl, rfl⟩

theorem SameBlocks.trans {b : AstraAllocator T} (h : SameBlocks a a') (h' : SameBlocks a' b) :
    SameBlocks a b := by
  refine ⟨h'.poolCount.trans h.poolCount, h'.memory.trans h.memory, fun i => ?_,
    fun i => (h'.live i).trans (h.live i), h'.liveBlocks.trans h.liveBlocks,
    h'.tables.1.trans h.tables.1, h'.tables.2.1.trans h.tables.2.1,
    h'.tables.2.2.trans h.tables.2.2⟩
  obtain ⟨n, hn⟩ := h.pool i
  obtain ⟨n', hn'⟩ := h'.pool i
  exact ⟨n', by rw [hn', hn]⟩

section

variable (a)

theorem SameBlocks.recordFailure (c : Option ℕ) (status : AstraAllocStatus) :
    SameBlocks a (recordFailure a c status) := by
  cases c with
  | none => exact ⟨rfl, rfl, fun _ => ⟨_, rfl⟩, fun _ => rfl, rfl, rfl, rfl, rfl⟩
  | some i =>
    refine ⟨rfl, rfl, fun _ => ⟨_, rfl⟩, fun j => ?_, rfl, rfl, rfl, rfl⟩
    rcases eq_or_ne j i with rfl | hne
    · simp [Astra.recordFailure, AstraAllocator.setClass]
    · simp [Astra.recordFailure, AstraAllocator.setClass, update_of_ne hne]

theorem SameBlocks.injected (i : ℕ) (nth : BitVec 32) :
    SameBlocks a (a.setPool i { a.pool i with injectionNth := nth }) := by
  refine ⟨rfl, rfl, fun j => ?_, fun _ => rfl, rfl, rfl, rfl, rfl⟩
  rcases eq_or_ne j i with rfl | hne
  · exact ⟨nth, by simp [AstraAllocator.setPool]⟩
  · exact ⟨_, by simp [AstraAllocator.setPool, update_of_ne hne]; rfl⟩

@[simp] theorem recordFailure_lastStatus (c : Option ℕ)
    (status : AstraAllocStatus) : (recordFailure a c status).lastStatus = status := rfl

end

/-- The bytes an allocation looks for. -/
def requested (bytes : ℕ) : ℕ := if bytes = 0 then 1 else bytes

theorem astraAlloc_cases (hpos : a.poolCount ≠ 0) (bytes : ℕ) :
    (∃ b, astraAlloc a bytes = (none, b) ∧ SameBlocks a b ∧ (b.lastStatus = .exhausted →
      ∃ i, poolForSize a (requested bytes) = some i ∧ (a.pool i).freeHead = astraAllocEnd)) ∨
    ∃ i b, poolForSize a (requested bytes) = some i ∧ SameBlocks a b ∧
      (b.pool i).freeHead ≠ astraAllocEnd ∧
        astraAlloc a bytes = (some (takeBlock b i).1, (takeBlock b i).2) := by
  unfold astraAlloc
  rw [if_neg hpos]
  unfold requested
  dsimp only
  generalize (if bytes = 0 then 1 else bytes) = n
  cases hi : poolForSize a n with
  | none => exact .inl ⟨_, rfl, .recordFailure a none .tooLarge, by simp⟩
  | some i =>
    generalize injectionFires a.injectionNth = first
    obtain ⟨fires, nth⟩ := first
    dsimp only
    have hab : SameBlocks a { a with injectionNth := nth } :=
      ⟨rfl, rfl, fun _ => ⟨_, rfl⟩, fun _ => rfl, rfl, rfl, rfl, rfl⟩
    split
    · exact .inl ⟨_, rfl, hab.trans (.recordFailure _ _ _), by simp⟩
    generalize injectionFires (a.pool i).injectionNth = second
    obtain ⟨fires', nth'⟩ := second
    have hac := hab.trans (.injected _ i nth')
    generalize AstraAllocator.setPool _ i _ = c at hac
    split
    · exact .inl ⟨_, rfl, hac.trans (.recordFailure c _ _), by simp⟩
    split
    · rename_i h3
      obtain ⟨x, hx⟩ := hac.pool i
      rw [hx] at h3
      exact .inl ⟨_, rfl, hac.trans (.recordFailure c _ _), fun _ => ⟨i, rfl, h3⟩⟩
    · rename_i h3
      exact .inr ⟨i, c, rfl, hac, h3, rfl⟩

section

variable (a)

@[simp] theorem takeBlock_pool (i : ℕ) : (takeBlock a i).2.pool
    = update a.pool i { a.pool i with
        freeHead := (a.pool i).link a.memory (a.pool i).freeHead.toNat
        freeCount := (a.pool i).freeCount - 1 } := rfl

@[simp] theorem takeBlock_memory (i : ℕ) : (takeBlock a i).2.memory
    = bitmapSet a.memory (a.pool i).bitmap (a.pool i).freeHead.toNat := rfl

@[simp] theorem takeBlock_poolCount (i : ℕ) : (takeBlock a i).2.poolCount = a.poolCount := rfl

theorem takeBlock_live (i j : ℕ) : ((takeBlock a i).2.perClass j).live
    = (a.perClass j).live + if j = i then 1 else 0 := by
  show (update a.perClass i _ j).live = _
  rcases eq_or_ne j i with rfl | hne
  · simp [AstraAllocator.setPool]
  · simp [hne, AstraAllocator.setPool]

@[simp] theorem returnBlock_pool (i slot : ℕ) :
    (returnBlock a i slot).pool = update a.pool i { a.pool i with
      freeHead := BitVec.ofNat 32 slot
      freeCount := (a.pool i).freeCount + 1 } := rfl

@[simp] theorem returnBlock_memory (i slot : ℕ) :
    (returnBlock a i slot).memory = store32 (bitmapClear a.memory (a.pool i).bitmap slot)
      ((a.pool i).block slot) (a.pool i).freeHead := rfl

@[simp] theorem returnBlock_poolCount (i slot : ℕ) :
    (returnBlock a i slot).poolCount = a.poolCount := rfl

theorem returnBlock_live (i slot j : ℕ) : ((returnBlock a i slot).perClass j).live
      = (a.perClass j).live + if j = i then -1 else 0 := by
  show (update a.perClass i _ j).live = _
  rcases eq_or_ne j i with rfl | hne
  · simp [AstraAllocator.setPool, sub_eq_add_neg]
  · simp [hne, AstraAllocator.setPool]

theorem takeBlock_shape (i j : ℕ) : ((takeBlock a i).2.pool j).shape = (a.pool j).shape := by
  rw [takeBlock_pool]
  rcases eq_or_ne j i with rfl | hne
  · rw [update_self]
    rfl
  · rw [update_of_ne hne]

theorem returnBlock_shape (i slot j : ℕ) :
    ((returnBlock a i slot).pool j).shape = (a.pool j).shape := by
  rw [returnBlock_pool]
  rcases eq_or_ne j i with rfl | hne
  · rw [update_self]
    rfl
  · rw [update_of_ne hne]

end

theorem block_of_shape {p q : AstraAllocPool} (h : q.shape = p.shape) (slot : ℕ) :
    q.block slot = p.block slot := by
  simp only [AstraAllocPool.shape, Prod.mk.injEq] at h
  rw [AstraAllocPool.block, AstraAllocPool.block, h.1, h.2.2.1]

theorem IsSlot.of_shape (hc : a'.poolCount = a.poolCount)
    (h : ∀ j, (a'.pool j).shape = (a.pool j).shape) : IsSlot a' i slot ↔ IsSlot a i slot := by
  have hi := h i
  simp only [AstraAllocPool.shape, Prod.mk.injEq] at hi
  constructor
  · rintro ⟨h1, h2⟩
    exact ⟨hc ▸ h1, hi.2.2.2.1 ▸ h2⟩
  · rintro ⟨h1, h2⟩
    exact ⟨hc ▸ h1, hi.2.2.2.1 ▸ h2⟩

structure Touches (a a' : AstraAllocator T) (i slot : ℕ) (used : Bool) : Prop where
  poolCount : a'.poolCount = a.poolCount
  shape : ∀ j, (a'.pool j).shape = (a.pool j).shape
  test : ∀ j s, IsSlot a j s → bitmapTest a'.memory (a.pool j).bitmap s
    = if j = i ∧ s = slot then used else bitmapTest a.memory (a.pool j).bitmap s

section

variable (h : AllocSound a live low high)
include h

theorem AllocSound.touched {used : Bool} (ht : Touches a a' i slot used) (hslot : IsSlot a i slot)
    (hpools : ∀ j < a.poolCount, ∃ L, PoolOk a'.memory (a'.pool j) (a'.perClass j).live L)
    (htotal : liveTotal a' a.poolCount = a'.metrics.liveBlocks) {live' : List (ℕ × ℕ)}
    (hlive : ∀ b ∈ live', (b ∈ live ∧ b.1 ≠ (a.pool i).block slot) ∨
      (used = true ∧ b.1 = (a.pool i).block slot ∧ b.2 ≤ (a.pool i).usable))
    (hheld : ∀ p ∈ live.map Prod.fst, p ≠ (a.pool i).block slot → p ∈ live'.map Prod.fst)
    (hused : used = true → (a.pool i).block slot ∈ live'.map Prod.fst)
    (hnodup : (live'.map Prod.fst).Nodup) : AllocSound a' live' low high := by
  have hshape : ∀ j, (a'.pool j).bitmap = (a.pool j).bitmap ∧
      (a'.pool j).usable = (a.pool j).usable := by
    intro j
    have hj := ht.shape j
    simp only [AstraAllocPool.shape, Prod.mk.injEq] at hj
    exact ⟨hj.2.1, hj.2.2.2.2⟩
  refine ⟨ht.poolCount ▸ h.pos, h.low_pos, ?_, ?_, ?_, ?_, ?_, hnodup⟩
  · rw [ht.poolCount]
    exact h.placed.congr fun j _ => ht.shape j
  · rw [ht.poolCount]
    exact hpools
  · rw [ht.poolCount]
    exact htotal
  · intro b hb
    rcases hlive b hb with ⟨hb', hne⟩ | ⟨hu, hb1, hb2⟩
    · obtain ⟨j, s, hjs, hbit, hb1, hb2⟩ := h.blocks b hb'
      refine ⟨j, s, (IsSlot.of_shape ht.poolCount ht.shape).2 hjs, ?_, ?_, ?_⟩
      · rw [(hshape j).1, ht.test j s hjs, if_neg, hbit]
        rintro ⟨rfl, rfl⟩
        exact hne hb1
      · rw [block_of_shape (ht.shape j), hb1]
      · rw [(hshape j).2]
        exact hb2
    · refine ⟨i, slot, (IsSlot.of_shape ht.poolCount ht.shape).2 hslot, ?_, ?_, ?_⟩
      · rw [(hshape i).1, ht.test i slot hslot, if_pos ⟨rfl, rfl⟩, hu]
      · rw [block_of_shape (ht.shape i), hb1]
      · rw [(hshape i).2]
        exact hb2
  · intro j s hjs hbit
    have hjs := (IsSlot.of_shape ht.poolCount ht.shape).1 hjs
    rw [(hshape j).1, ht.test j s hjs] at hbit
    rw [block_of_shape (ht.shape j)]
    by_cases hsame : j = i ∧ s = slot
    · obtain ⟨rfl, rfl⟩ := hsame
      rw [if_pos ⟨rfl, rfl⟩] at hbit
      exact hused hbit
    · rw [if_neg hsame] at hbit
      refine hheld _ (h.held j s hjs hbit) fun he => hsame ?_
      exact h.placed.block_inj hjs.pool hslot.pool hjs.slot hslot.slot he

theorem AllocSound.other_bitmap {j : ℕ} (hi : i < a.poolCount)
    (hj : j < a.poolCount) (hij : j ≠ i) {L : List ℕ} {c : BitVec 32}
    (hL : PoolOk a.memory (a.pool j) c L) {m' : Memory}
    (hm : ∀ x, x < (a.pool i).bitmap ∨
      (a.pool i).bitmap + 4 * bitmapWords (a.pool i).count ≤ x → m' x = a.memory x) :
    PoolOk m' (a.pool j) c L := by
  refine hL.frame (h.placed.fits j hj).stride ?_ ?_
  · intro x h1 h2
    have := h.placed.bitmaps_apart hi hj hij.symm
    exact hm x (by omega)
  · intro s hs x h1 h2
    have := h.placed.bitmap_apart hi hj (hL.lt hs)
    exact hm x (by omega)

theorem AllocSound.takeBlock {bytes : ℕ}
    (hi : i < a.poolCount) (hfree : (a.pool i).freeHead ≠ astraAllocEnd)
    (hbytes : bytes ≤ (a.pool i).usable) :
    (takeBlock a i).1 ∉ live.map Prod.fst ∧
      AllocSound (takeBlock a i).2 (((takeBlock a i).1, bytes) :: live) low high := by
  obtain ⟨L, hL⟩ := h.pools i hi
  have hfits := h.placed.fits i hi
  obtain ⟨s, L, rfl⟩ : ∃ s L', L = s :: L' := by
    cases L with
    | nil => exact absurd ((hL.freeHead_eq_end hfits.count).2 rfl) hfree
    | cons s L' => exact ⟨s, L', rfl⟩
  have hhead := hL.head_toNat hfits.count
  obtain ⟨hs, hbit⟩ := (hL.mem s).1 mem_cons_self
  have hslot : IsSlot a i s := ⟨hi, hs⟩
  have hblock : (Astra.takeBlock a i).1 = (a.pool i).block s := by
    show (a.pool i).block (a.pool i).freeHead.toNat = _
    rw [hhead]
  have hfresh : (a.pool i).block s ∉ live.map Prod.fst := by
    intro hmem
    obtain ⟨b, hb, hb1⟩ := mem_map.1 hmem
    obtain ⟨j, t, hjt, hset, hbt, -⟩ := h.blocks b hb
    obtain ⟨rfl, rfl⟩ := h.placed.block_inj hi hjt.pool hs hjt.slot (hb1.symm.trans hbt)
    rw [hbit] at hset
    cases hset
  have hout : ∀ x, x < (a.pool i).bitmap ∨
      (a.pool i).bitmap + 4 * bitmapWords (a.pool i).count ≤ x →
        (Astra.takeBlock a i).2.memory x = a.memory x := by
    intro x hx
    rw [takeBlock_memory, hhead]
    exact bitmapSet_of_outside hs hx
  have ht : Touches a (Astra.takeBlock a i).2 i s true := by
    refine ⟨rfl, takeBlock_shape a i, fun j t hjt => ?_⟩
    rcases eq_or_ne j i with rfl | hji
    · rw [takeBlock_memory, hhead, bitmapTest_bitmapSet]
      by_cases hts : t = s <;> simp [hts]
    · rw [if_neg (fun hc => hji hc.1)]
      have := h.placed.bitmaps_apart hi hjt.pool hji.symm
      exact bitmapTest_congr hjt.slot fun x _ _ => hout x (by omega)
  rw [hblock]
  refine ⟨hfresh, h.touched ht hslot ?_ ?_ ?_ ?_ (fun _ => mem_cons_self) ?_⟩
  · intro j hj
    rw [takeBlock_live, takeBlock_pool]
    rcases eq_or_ne j i with rfl | hji
    · rw [update_self, if_pos rfl, takeBlock_memory, hhead]
      exact ⟨L, hL.take hfits⟩
    · obtain ⟨L', hL'⟩ := h.pools j hj
      rw [update_of_ne hji, if_neg hji, add_zero]
      exact ⟨L', h.other_bitmap hi hj hji hL' hout⟩
  · rw [liveTotal_add (takeBlock_live a i), if_pos hi, h.total]
    rfl
  · intro b hb
    rcases mem_cons.1 hb with rfl | hb
    · exact .inr ⟨rfl, rfl, hbytes⟩
    · refine .inl ⟨hb, fun he => hfresh ?_⟩
      rw [← he]
      exact mem_map_of_mem hb
  · intro p hp _
    exact mem_cons_of_mem _ hp
  · exact nodup_cons.2 ⟨hfresh, h.nodup⟩

theorem AllocSound.returnBlock
    (hslot : IsSlot a i slot) (hbit : bitmapTest a.memory (a.pool i).bitmap slot = true) :
    AllocSound (returnBlock a i slot)
      (live.filter fun b => b.1 ≠ (a.pool i).block slot) low high := by
  obtain ⟨hi, hs⟩ := hslot
  obtain ⟨L, hL⟩ := h.pools i hi
  have hfits := h.placed.fits i hi
  have hout : ∀ x, (x < (a.pool i).bitmap ∨
      (a.pool i).bitmap + 4 * bitmapWords (a.pool i).count ≤ x) →
        (x < (a.pool i).block slot ∨ (a.pool i).block slot + (a.pool i).stride ≤ x) →
          (Astra.returnBlock a i slot).memory x = a.memory x := by
    intro x hx hb
    have := hfits.stride
    rw [returnBlock_memory, store32_of_outside (by omega)]
    exact bitmapClear_of_outside hs hx
  have ht : Touches a (Astra.returnBlock a i slot) i slot false := by
    refine ⟨rfl, returnBlock_shape a i slot, fun j t hjt => ?_⟩
    have hbj := h.placed.bitmap_apart hjt.pool hi hs
    rcases eq_or_ne j i with rfl | hji
    · have hcleared : bitmapTest (Astra.returnBlock a j slot).memory (a.pool j).bitmap t
          = bitmapTest (bitmapClear a.memory (a.pool j).bitmap slot) (a.pool j).bitmap t := by
        refine bitmapTest_congr hjt.slot fun x h1 h2 => ?_
        have := hfits.stride
        rw [returnBlock_memory]
        exact store32_of_outside (by omega)
      rw [hcleared, bitmapTest_bitmapClear]
      by_cases hts : t = slot <;> simp [hts]
    · rw [if_neg (fun hc => hji hc.1)]
      have := h.placed.bitmaps_apart hi hjt.pool hji.symm
      exact bitmapTest_congr hjt.slot fun x _ _ => hout x (by omega) (by omega)
  refine h.touched ht ⟨hi, hs⟩ ?_ ?_ ?_ ?_ (by simp) ?_
  · intro j hj
    rw [returnBlock_live, returnBlock_pool]
    rcases eq_or_ne j i with rfl | hji
    · rw [update_self, if_pos rfl, returnBlock_memory, ← sub_eq_add_neg]
      exact ⟨slot :: L, hL.give hfits hs hbit⟩
    · obtain ⟨L', hL'⟩ := h.pools j hj
      rw [update_of_ne hji, if_neg hji, add_zero]
      refine ⟨L', hL'.frame (h.placed.fits j hj).stride ?_ ?_⟩
      · intro x _ _
        have h1 := h.placed.bitmaps_apart hi hj hji.symm
        have h2 := h.placed.bitmap_apart hj hi hs
        exact hout x (by omega) (by omega)
      · intro t hts x _ _
        have h1 := h.placed.bitmap_apart hi hj (hL'.lt hts)
        have h2 := h.placed.blocks_apart hi hj hs (hL'.lt hts) fun hc => hji hc.1.symm
        exact hout x (by omega) (by omega)
  · rw [liveTotal_add (returnBlock_live a i slot), if_pos hi, h.total, ← sub_eq_add_neg]
    rfl
  · intro b hb
    obtain ⟨hb1, hb2⟩ := mem_filter.1 hb
    exact .inl ⟨hb1, by simpa using hb2⟩
  · intro p hp hne
    obtain ⟨b, hb, rfl⟩ := mem_map.1 hp
    exact mem_map_of_mem (mem_filter.2 ⟨hb, by simpa using hne⟩)
  · exact h.nodup.sublist (filter_sublist.map _)

theorem AllocSound.store {b : ℕ × ℕ} (hb : b ∈ live)
    {address : ℕ} (h1 : b.1 ≤ address) (h2 : address < b.1 + b.2) (value : BitVec 8) :
    AllocSound { a with memory := update a.memory address value } live low high := by
  obtain ⟨i, slot, hslot, hbit, hb1, hb2⟩ := h.blocks b hb
  have hfits := h.placed.fits i hslot.pool
  have husable := hfits.usable
  have hout : ∀ x, x < (a.pool i).block slot ∨ (a.pool i).block slot + (a.pool i).stride ≤ x →
      update a.memory address value x = a.memory x := by
    intro x hx
    exact update_of_ne (by omega) _ _
  have htest : ∀ j s, IsSlot a j s →
      bitmapTest (update a.memory address value) (a.pool j).bitmap s
        = bitmapTest a.memory (a.pool j).bitmap s := by
    intro j s hjs
    have := h.placed.bitmap_apart hjs.pool hslot.pool hslot.slot
    exact bitmapTest_congr hjs.slot fun x _ _ => hout x (by omega)
  refine ⟨h.pos, h.low_pos, h.placed, ?_, ?_, ?_, ?_, h.nodup⟩
  · intro j hj
    obtain ⟨L, hL⟩ := h.pools j hj
    refine ⟨L, hL.frame (h.placed.fits j hj).stride ?_ ?_⟩
    · intro x _ _
      have := h.placed.bitmap_apart hj hslot.pool hslot.slot
      exact hout x (by omega)
    · intro t ht x _ _
      -- the slot written to is in use, so it is none of the free ones
      have hne : ¬(i = j ∧ slot = t) := by
        rintro ⟨rfl, rfl⟩
        have := ((hL.mem slot).1 ht).2
        rw [hbit] at this
        cases this
      have := h.placed.blocks_apart hslot.pool hj hslot.slot (hL.lt ht) hne
      exact hout x (by omega)
  · show liveTotal _ a.poolCount = a.metrics.liveBlocks
    rw [← h.total]
    apply liveTotal_congr
    intro j
    rfl
  · intro c hc
    obtain ⟨j, s, hjs, hset, hc1, hc2⟩ := h.blocks c hc
    exact ⟨j, s, ⟨hjs.pool, hjs.slot⟩, (htest j s hjs).trans hset, hc1, hc2⟩
  · intro j s hjs hset
    have hjs : IsSlot a j s := ⟨hjs.pool, hjs.slot⟩
    exact h.held j s hjs ((htest j s hjs).symm.trans hset)

end

/-! ## Freeing -/

theorem poolOf_some (h : poolOf a pointer = some i) : i < a.poolCount ∧
    (a.pool i).base ≤ pointer ∧ pointer < (a.pool i).base + (a.pool i).count * (a.pool i).stride := by
  have h1 := mem_of_find?_eq_some h
  have h2 := List.find?_some h
  rw [decide_eq_true_eq, not_or, Nat.mul_comm] at h2
  exact ⟨mem_range.1 h1, by omega, by omega⟩

theorem poolOf_none (h : poolOf a pointer = none) (hi : i < a.poolCount) :
    pointer < (a.pool i).base ∨
      (a.pool i).base + (a.pool i).count * (a.pool i).stride ≤ pointer := by
  have := List.find?_eq_none.1 h i (mem_range.2 hi)
  rw [decide_eq_true_eq, not_not, Nat.mul_comm] at this
  exact this

section

variable (h : AllocSound a live low high)
include h

theorem AllocSound.poolOf_block
    (hslot : IsSlot a i slot) : poolOf a ((a.pool i).block slot) = some i := by
  have hle := AstraAllocPool.base_le_block (a.pool i) slot
  have hend := AstraAllocPool.block_add_stride_le hslot.slot
  have h4 := (h.placed.fits i hslot.pool).stride
  cases hp : poolOf a ((a.pool i).block slot) with
  | none =>
    have := poolOf_none hp hslot.pool
    omega
  | some j =>
    obtain ⟨hj, h1, h2⟩ := poolOf_some hp
    have hfi := (h.placed.fits i hslot.pool).bitmap
    have hfj := (h.placed.fits j hj).bitmap
    rcases Nat.lt_trichotomy i j with hij | rfl | hji
    · have := h.placed.order i j hij hj
      omega
    · rfl
    · have := h.placed.order j i hji hslot.pool
      omega

/-- What the status of a refused pointer says about it. -/
def Refused (a : AstraAllocator T) (pointer : ℕ) : AstraAllocStatus → Prop
  | .foreignPointer => ∀ i < a.poolCount, pointer < (a.pool i).base ∨
      (a.pool i).base + (a.pool i).count * (a.pool i).stride ≤ pointer
  | .misalignedPointer => ∃ i < a.poolCount, (a.pool i).base ≤ pointer ∧
      pointer < (a.pool i).base + (a.pool i).count * (a.pool i).stride ∧
        ∀ slot, pointer ≠ (a.pool i).block slot
  | .doubleFree => ∃ i slot, IsSlot a i slot ∧ pointer = (a.pool i).block slot
  | _ => False

theorem AllocSound.ne_zero (hs : IsSlot a i slot) : (a.pool i).block slot ≠ 0 := by
  have := h.low_pos
  have := h.placed.low i hs.pool
  have := (h.placed.fits i hs.pool).bitmap
  have := (a.pool i).base_le_block slot
  omega

theorem astraAllocFree_live (hp : pointer ∈ live.map Prod.fst) : ∃ i slot, IsSlot a i slot ∧
      bitmapTest a.memory (a.pool i).bitmap slot = true ∧ pointer = (a.pool i).block slot ∧
        astraAllocFree a pointer = (.ok, returnBlock a i slot) := by
  obtain ⟨b, hb, rfl⟩ := mem_map.1 hp
  obtain ⟨i, slot, hslot, hbit, hb1, -⟩ := h.blocks b hb
  refine ⟨i, slot, hslot, hbit, hb1, ?_⟩
  have h4 := (h.placed.fits i hslot.pool).stride
  have hoff : (a.pool i).block slot - (a.pool i).base = slot * (a.pool i).stride := by
    unfold AstraAllocPool.block
    omega
  unfold astraAllocFree
  rw [hb1, if_neg (h.ne_zero hslot), h.poolOf_block hslot]
  dsimp only
  rw [hoff, if_neg (by simp), Nat.mul_div_cancel _ (by omega), if_neg (by simp [hbit])]

theorem astraAllocFree_bad (h0 : pointer ≠ 0) (hp : pointer ∉ live.map Prod.fst) :
    ∃ status, astraAllocFree a pointer = reject a status ∧ Refused a pointer status := by
  unfold astraAllocFree
  rw [if_neg h0]
  cases hi : poolOf a pointer with
  | none => exact ⟨_, rfl, fun i hi' => poolOf_none hi hi'⟩
  | some i =>
    obtain ⟨hlt, h1, h2⟩ := poolOf_some hi
    have h4 := (h.placed.fits i hlt).stride
    dsimp only
    split
    · rename_i hmod
      refine ⟨_, rfl, i, hlt, h1, h2, fun slot he => hmod ?_⟩
      rw [he, AstraAllocPool.block, Nat.add_sub_cancel_left, Nat.mul_mod_left]
    generalize hs : (pointer - (a.pool i).base) / (a.pool i).stride = slot
    have hoff : pointer - (a.pool i).base = slot * (a.pool i).stride := by
      have := Nat.div_add_mod (pointer - (a.pool i).base) (a.pool i).stride
      rw [hs, Nat.mul_comm] at this
      omega
    have hblock : pointer = (a.pool i).block slot := by
      unfold AstraAllocPool.block
      omega
    have hslot : IsSlot a i slot := by
      refine ⟨hlt, ?_⟩
      have : slot * (a.pool i).stride < (a.pool i).count * (a.pool i).stride := by omega
      exact Nat.lt_of_mul_lt_mul_right this
    by_cases hbit : bitmapTest a.memory (a.pool i).bitmap slot = false
    · rw [if_pos hbit]
      exact ⟨_, rfl, i, slot, hslot, hblock⟩
    · refine absurd ?_ hp
      rw [hblock]
      exact h.held i slot hslot (by simpa using hbit)

end

end Astra
