import AstraKernel.Proofs.AllocSteps

/-!
# What a client of the allocator can rely on

From an arena laid out by `astra_alloc_init`, every run of calls keeps the client safe
(`run_client_safe`): its blocks are apart, aligned, as large as asked for and clear of the tables, a
bad pointer is refused, and only a class with no free block is exhausted.
-/

namespace Astra

open List

variable {T : AllocTarget}

variable {classes : List AstraAllocClass} {m : Memory} {arena arenaBytes high low n : ℕ}

theorem layout_placed {l : AllocLayout}
    (harena : T.alignment ∣ arena) (h : layout T classes arena = some l) :
    classes.length ≠ 0 ∧ l.pools.length = classes.length ∧ ∃ start,
      l.poolOffset + classes.length * T.poolBytes ≤ l.metricsOffset ∧
      l.metricsOffset + classes.length * T.metricsBytes ≤ l.namesOffset ∧
      l.namesOffset + classes.length * T.namesBytes ≤ start ∧
      PoolsPlaced T (arena + l.cursor) (arena + start) l.pools := by
  unfold layout at h
  split_ifs at h with h0
  split at h
  · cases h
  rename_i poolOffset cursor1 hpool
  split at h
  · cases h
  rename_i metricsOffset cursor2 hmetrics
  split at h
  · cases h
  rename_i namesOffset cursor3 hnames
  obtain ⟨-, -, rfl⟩ := reserve_spec T.poolAlignment_pos hpool
  obtain ⟨h2, -, rfl⟩ := reserve_spec T.metricsAlignment_pos hmetrics
  obtain ⟨h3, -, rfl⟩ := reserve_spec T.namesAlignment_pos hnames
  obtain ⟨⟨pools, cursor⟩, hclasses, rfl⟩ := Option.map_eq_some_iff.1 h
  obtain ⟨hplaced, hlen⟩ := layoutClasses_placed harena hclasses
  exact ⟨h0, hlen, _, h2, h3, le_rfl, hplaced⟩

structure InArena (T : AllocTarget) (arena low : ℕ) (a : AstraAllocator T) : Prop where
  pool : arena ≤ a.poolAt ∧ a.poolAt + a.poolCount * T.poolBytes ≤ low
  metrics : arena ≤ a.metricsAt ∧ a.metricsAt + a.poolCount * T.metricsBytes ≤ low
  names : arena ≤ a.namesAt ∧ a.namesAt + a.poolCount * T.namesBytes ≤ low

theorem fillZero_inside {a x : ℕ} (h1 : a ≤ x) (h2 : x < a + n) : fillZero m a n x = 0 :=
  if_pos ⟨h1, h2⟩

theorem liveTotal_zero {a : AstraAllocator T} (h : ∀ i, (a.perClass i).live = 0) :
    ∀ n, liveTotal a n = 0
  | 0 => rfl
  | n + 1 => by rw [liveTotal, liveTotal_zero h n, h n, add_zero]

theorem PoolsPlaced.congr {stop : ℕ} : ∀ {pools pools' : List AstraAllocPool} {cursor : ℕ},
    PoolsPlaced T stop cursor pools → pools'.map (·.shape) = pools.map (·.shape) →
      PoolsPlaced T stop cursor pools'
  | [], pools', cursor, h, hs => by
    obtain rfl : pools' = [] := by simpa using hs
    exact h
  | p :: pools, pools', cursor, h, hs => by
    cases pools' with
    | nil => simp at hs
    | cons q pools' =>
      simp only [map_cons, List.cons.injEq] at hs
      obtain ⟨hq, hrest⟩ := hs
      have hq' := hq
      simp only [AstraAllocPool.shape, Prod.mk.injEq] at hq'
      refine ⟨h.1.congr hq, ?_, ?_⟩
      · rw [hq'.2.1]
        exact h.2.1
      · rw [hq'.1, hq'.2.2.1, hq'.2.2.2.1]
        exact h.2.2.congr hrest

theorem PoolOk.test_eq_false {p : AstraAllocPool} {L : List ℕ} (h : PoolOk m p 0 L)
    (hcount : p.count < 2 ^ 32) {slot : ℕ} (hs : slot < p.count) :
    bitmapTest m p.bitmap slot = false := by
  have hadd := occupied_add_length h.nodup h.mem
  have hto : (BitVec.ofNat 32 (occupiedSlots m p)).toNat = 0 := congrArg BitVec.toNat h.live.symm
  rw [BitVec.toNat_ofNat, Nat.mod_eq_of_lt (by omega)] at hto
  have hnone := countP_eq_zero.1 hto slot (mem_range.2 hs)
  simpa using hnone

theorem AllocSound.fresh {a : AstraAllocator T} (hpos : a.poolCount ≠ 0)
    (hlow : 0 < low) (hplaced : PlacedAt T low high a.poolCount a.pool)
    (hpools : ∀ i < a.poolCount, ∃ L, PoolOk a.memory (a.pool i) 0 L)
    (hlive : ∀ i, (a.perClass i).live = 0) (htotal : a.metrics.liveBlocks = 0) :
    AllocSound a [] low high := by
  refine ⟨hpos, hlow, hplaced, ?_, ?_, by simp, ?_, by simp⟩
  · intro i hi
    rw [hlive]
    exact hpools i hi
  · rw [liveTotal_zero hlive, htotal]
  · intro i slot hslot hbit
    obtain ⟨L, hL⟩ := hpools i hslot.pool
    rw [hL.test_eq_false (hplaced.fits i hslot.pool).count hslot.slot] at hbit
    cases hbit

theorem PlacedAt.mono {high' : ℕ} {pool : ℕ → AstraAllocPool}
    (h : PlacedAt T low high n pool) (hle : high ≤ high') : PlacedAt T low high' n pool :=
  ⟨h.fits, h.low, fun i hi => (h.high i hi).trans hle, h.order⟩

theorem astraAllocInit_sound
    {a : AstraAllocator T} (h : astraAllocInit T classes arena arenaBytes m = .ok a) :
    ∃ low, AllocSound a [] low (arena + arenaBytes) ∧ InArena T arena low a := by
  unfold astraAllocInit at h
  split_ifs at h with h0 halign
  split at h
  · cases h
  rename_i l hl
  split_ifs at h with hroom
  have harena : T.alignment ∣ arena := Nat.dvd_of_mod_eq_zero (by omega)
  obtain ⟨hn, hlen, start, h1, h2, h3, hplaced⟩ := layout_placed harena hl
  obtain ⟨hshape, hok, -⟩ := initPools_ok (m := fillZero m arena l.cursor) hplaced
    fun x hx1 hx2 => fillZero_inside (by omega) hx2
  have hplaced' := (hplaced.congr hshape).at
  generalize initPools l.pools (fillZero m arena l.cursor) = r at h hshape hok hplaced'
  obtain ⟨pools, m'⟩ := r
  have hlen' : pools.length = classes.length := by
    have := congrArg List.length hshape
    simp only [length_map] at this
    omega
  rw [hlen'] at hplaced'
  have hpools : ∀ i < classes.length, ∃ L, PoolOk m' (pools.getD i noPool) 0 L := by
    intro i hi
    rw [← hlen'] at hi
    rw [← getElem_eq_getD (h := hi)]
    exact hok _ (getElem_mem hi)
  cases h
  refine ⟨arena + start, .fresh hn ?_ ?_ hpools (fun _ => rfl) rfl, ⟨?_, ?_⟩, ⟨?_, ?_⟩, ⟨?_, ?_⟩⟩
  · omega
  · exact hplaced'.mono (by omega)
  all_goals
    dsimp only
    omega

theorem le_requested (bytes : ℕ) : bytes ≤ requested bytes := by
  unfold requested
  split_ifs <;> omega

def SameTables (a a' : AstraAllocator T) : Prop :=
  a'.poolCount = a.poolCount ∧ a'.poolAt = a.poolAt ∧ a'.metricsAt = a.metricsAt ∧
    a'.namesAt = a.namesAt

theorem SameBlocks.sameTables {a a' : AstraAllocator T} (h : SameBlocks a a') : SameTables a a' :=
  ⟨h.poolCount, h.tables⟩

theorem InArena.same {a a' : AstraAllocator T} (h : InArena T arena low a)
    (hs : SameTables a a') : InArena T arena low a' := by
  obtain ⟨h0, h1, h2, h3⟩ := hs
  refine ⟨?_, ?_, ?_⟩
  · rw [h0, h1]
    exact h.pool
  · rw [h0, h2]
    exact h.metrics
  · rw [h0, h3]
    exact h.names

structure AllocRunSound (T : AllocTarget) (arena low high : ℕ) (r : AllocRun T) : Prop where
  sound : AllocSound r.allocator r.live low high
  tables : InArena T arena low r.allocator

theorem AllocRunSound.step {arena low high : ℕ} {r : AllocRun T}
    (h : AllocRunSound T arena low high r) (c : AllocCall) :
    AllocRunSound T arena low high (r.step c) := by
  have hs := h.sound
  cases c with
  | alloc bytes =>
    rcases astraAlloc_cases hs.pos bytes with ⟨b, hb, hsame, -⟩ | ⟨i, b, hi, hsame, hfree, hb⟩
    · simp only [AllocRun.step, hb]
      exact ⟨hs.same hsame, h.tables.same hsame.sameTables⟩
    · simp only [AllocRun.step, hb]
      have hlt := mem_range.1 (mem_of_find?_eq_some hi)
      have husable : requested bytes ≤ (r.allocator.pool i).usable := by
        simpa using List.find?_some hi
      obtain ⟨x, hx⟩ := hsame.pool i
      have hbytes : bytes ≤ (b.pool i).usable := by
        rw [hx]
        exact (le_requested bytes).trans husable
      refine ⟨((hs.same hsame).takeBlock (hsame.poolCount ▸ hlt) hfree hbytes).2, ?_⟩
      exact h.tables.same hsame.sameTables
  | free pointer =>
    by_cases h0 : pointer = 0
    · subst h0
      have hfilter : r.live.filter (fun b => b.1 ≠ 0) = r.live := by
        refine filter_eq_self.2 fun b hb => ?_
        obtain ⟨i, slot, hslot, -, hb1, -⟩ := hs.blocks b hb
        simpa [hb1] using hs.ne_zero hslot
      have hfree : astraAllocFree r.allocator 0 = (.ok, { r.allocator with lastStatus := .ok }) :=
        rfl
      simp only [AllocRun.step, hfree, if_true, hfilter]
      have hsame : SameBlocks r.allocator { r.allocator with lastStatus := .ok } :=
        ⟨rfl, rfl, fun _ => ⟨_, rfl⟩, fun _ => rfl, rfl, rfl, rfl, rfl⟩
      exact ⟨hs.same hsame, h.tables.same hsame.sameTables⟩
    · by_cases hp : pointer ∈ r.live.map Prod.fst
      · obtain ⟨i, slot, hslot, hbit, rfl, hfree⟩ := astraAllocFree_live hs hp
        simp only [AllocRun.step, hfree, if_true]
        exact ⟨hs.returnBlock hslot hbit, h.tables.same ⟨rfl, rfl, rfl, rfl⟩⟩
      · obtain ⟨status, hfree, href⟩ := astraAllocFree_bad hs h0 hp
        have hne : status ≠ .ok := by
          rintro rfl
          exact href
        simp only [AllocRun.step, hfree, reject, if_neg hne]
        have hsame : SameBlocks r.allocator (reject r.allocator status).2 :=
          ⟨rfl, rfl, fun _ => ⟨_, rfl⟩, fun _ => rfl, rfl, rfl, rfl, rfl⟩
        exact ⟨hs.same hsame, h.tables.same hsame.sameTables⟩
  | inject nth =>
    have hsame : SameBlocks r.allocator (astraAllocInject r.allocator nth) :=
      ⟨rfl, rfl, fun _ => ⟨_, rfl⟩, fun _ => rfl, rfl, rfl, rfl, rfl⟩
    exact ⟨hs.same hsame, h.tables.same hsame.sameTables⟩
  | injectClass i nth =>
    have hsame : SameBlocks r.allocator (astraAllocInjectClass r.allocator i nth).2 := by
      unfold astraAllocInjectClass
      split_ifs
      · exact .refl _
      · exact .injected _ i nth
    exact ⟨hs.same hsame, h.tables.same hsame.sameTables⟩
  | store address value =>
    simp only [AllocRun.step]
    split_ifs with hany
    · obtain ⟨b, hb, hin⟩ := any_eq_true.1 hany
      rw [decide_eq_true_eq] at hin
      exact ⟨hs.store hb hin.1 hin.2 value, h.tables.same ⟨rfl, rfl, rfl, rfl⟩⟩
    · exact h

theorem AllocRunSound.run : ∀ {r : AllocRun T} (calls : List AllocCall),
    AllocRunSound T arena low high r → AllocRunSound T arena low high (r.run calls)
  | _, [], h => h
  | _, c :: calls, h => (h.step c).run calls

/-- Where the client's pointer leads: a block of `n` bytes. -/
def IsBlock (a : AstraAllocator T) (pointer n : ℕ) : Prop :=
  ∃ i slot, IsSlot a i slot ∧ pointer = (a.pool i).block slot ∧ n = (a.pool i).stride

/-- What holds of the allocator and the blocks its client has. -/
structure ClientSafe (T : AllocTarget) (arena arenaBytes : ℕ) (r : AllocRun T) : Prop where
  valid : astraAllocValid r.allocator = true
  block : ∀ b ∈ r.live, T.alignment ∣ b.1 ∧ ∃ n, IsBlock r.allocator b.1 n ∧ b.2 ≤ n ∧
    arena ≤ b.1 ∧ b.1 + n ≤ arena + arenaBytes
  once : (r.live.map Prod.fst).Nodup
  disjoint : ∀ b ∈ r.live, ∀ b' ∈ r.live, b.1 ≠ b'.1 → ∀ n n', IsBlock r.allocator b.1 n →
    IsBlock r.allocator b'.1 n' → b.1 + n ≤ b'.1 ∨ b'.1 + n' ≤ b.1
  tables : ∀ b ∈ r.live, r.allocator.poolAt + r.allocator.poolCount * T.poolBytes ≤ b.1 ∧
    r.allocator.metricsAt + r.allocator.poolCount * T.metricsBytes ≤ b.1 ∧
      r.allocator.namesAt + r.allocator.poolCount * T.namesBytes ≤ b.1
  bitmaps : ∀ b ∈ r.live, ∀ n, IsBlock r.allocator b.1 n → ∀ i < r.allocator.poolCount,
    (r.allocator.pool i).bitmap + 4 * bitmapWords (r.allocator.pool i).count ≤ b.1 ∨
      b.1 + n ≤ (r.allocator.pool i).bitmap
  fresh : ∀ bytes p b, astraAlloc r.allocator bytes = (some p, b) → p ∉ r.live.map Prod.fst
  freed : ∀ p ∈ r.live.map Prod.fst, (astraAllocFree r.allocator p).1 = .ok
  null : astraAllocFree r.allocator 0 = (.ok, { r.allocator with lastStatus := .ok })
  refused : ∀ p, p ≠ 0 → p ∉ r.live.map Prod.fst → ∃ status,
    astraAllocFree r.allocator p = reject r.allocator status ∧ Refused r.allocator p status
  exhausted : ∀ bytes b, astraAlloc r.allocator bytes = (none, b) → b.lastStatus = .exhausted →
    ∃ i, poolForSize r.allocator (requested bytes) = some i ∧
      ∀ slot < (r.allocator.pool i).count, (r.allocator.pool i).block slot ∈ r.live.map Prod.fst

theorem AllocSound.valid {a : AstraAllocator T} {live : List (ℕ × ℕ)}
    (h : AllocSound a live low high) : astraAllocValid a = true := by
  simp only [astraAllocValid, decide_eq_true_eq]
  refine ⟨h.pos, fun i hi => ?_, h.total⟩
  obtain ⟨L, hL⟩ := h.pools i hi
  simp only [poolValid, decide_eq_true_eq]
  exact hL.valid (h.placed.fits i hi).count

theorem AllocRunSound.client_safe {r : AllocRun T}
    (h : AllocRunSound T arena low (arena + arenaBytes) r) : ClientSafe T arena arenaBytes r := by
  have hs := h.sound
  have hbase : ∀ b ∈ r.live, low ≤ b.1 := by
    intro b hb
    obtain ⟨i, slot, hslot, -, hb1, -⟩ := hs.blocks b hb
    have := hs.placed.low i hslot.pool
    have := (hs.placed.fits i hslot.pool).bitmap
    have := (r.allocator.pool i).base_le_block slot
    omega
  refine ⟨hs.valid, ?_, hs.nodup, ?_, ?_, ?_, ?_, ?_, rfl, fun p h0 hp => astraAllocFree_bad hs h0 hp,
    ?_⟩
  · intro b hb
    obtain ⟨i, slot, hslot, -, hb1, hb2⟩ := hs.blocks b hb
    have hfits := hs.placed.fits i hslot.pool
    have hend := AstraAllocPool.block_add_stride_le hslot.slot
    have hhigh := hs.placed.high i hslot.pool
    have harena := h.tables.pool.1.trans (Nat.le_of_add_right_le h.tables.pool.2)
    refine ⟨?_, _, ⟨i, slot, hslot, hb1, rfl⟩, hb2.trans hfits.usable, harena.trans (hbase b hb), ?_⟩
    · rw [hb1]
      exact Nat.dvd_add hfits.base_dvd (hfits.stride_dvd.mul_left slot)
    · rw [hb1]
      omega
  · rintro b - b' - hne n n' ⟨i, slot, hslot, hb, rfl⟩ ⟨j, slot', hslot', hb', rfl⟩
    rw [hb, hb']
    refine hs.placed.blocks_apart hslot.pool hslot'.pool hslot.slot hslot'.slot ?_
    rintro ⟨rfl, rfl⟩
    exact hne (hb.trans hb'.symm)
  · intro b hb
    have := hbase b hb
    have := h.tables.pool.2
    have := h.tables.metrics.2
    have := h.tables.names.2
    exact ⟨by omega, by omega, by omega⟩
  · rintro b - n ⟨i, slot, hslot, hb, rfl⟩ j hj
    rw [hb]
    exact hs.placed.bitmap_apart hj hslot.pool hslot.slot
  · intro bytes p b hb
    rcases astraAlloc_cases hs.pos bytes with ⟨c, hc, -⟩ | ⟨i, c, hi, hsame, hfree, hc⟩
    · rw [hc] at hb
      cases hb
    · rw [hc] at hb
      cases hb
      have hlt := mem_range.1 (mem_of_find?_eq_some hi)
      exact ((hs.same hsame).takeBlock (hsame.poolCount ▸ hlt) hfree (Nat.zero_le _)).1
  · intro p hp
    obtain ⟨i, slot, -, -, -, hfree⟩ := astraAllocFree_live hs hp
    rw [hfree]
  · intro bytes b hb hstatus
    rcases astraAlloc_cases hs.pos bytes with ⟨c, hc, -, hex⟩ | ⟨i, c, -, -, -, hc⟩
    · rw [hc] at hb
      cases hb
      obtain ⟨i, hi, hfree⟩ := hex hstatus
      have hlt := mem_range.1 (mem_of_find?_eq_some hi)
      refine ⟨i, hi, fun slot hslot => hs.held i slot ⟨hlt, hslot⟩ ?_⟩
      obtain ⟨L, hL⟩ := hs.pools i hlt
      have hnil := (hL.freeHead_eq_end (hs.placed.fits i hlt).count).1 hfree
      subst hnil
      by_contra hbit
      have hmem := (hL.mem slot).2 ⟨hslot, by simpa using hbit⟩
      simp at hmem
    · rw [hc] at hb
      cases hb

/-- In every state of every run from a fresh arena the client is safe. -/
theorem run_client_safe {classes : List AstraAllocClass} {arena arenaBytes : ℕ} {m : Memory}
    {a : AstraAllocator T} (h : astraAllocInit T classes arena arenaBytes m = .ok a)
    (calls : List AllocCall) :
    ClientSafe T arena arenaBytes (AllocRun.run ⟨a, []⟩ calls) := by
  obtain ⟨low, hs, htables⟩ := astraAllocInit_sound h
  have h0 : AllocRunSound T arena low (arena + arenaBytes) ⟨a, []⟩ := ⟨hs, htables⟩
  exact (h0.run calls).client_safe

/-- The sizes of the machine the services are built for. -/
def m68kTarget : AllocTarget where
  sizeBits := 32
  alignment := 2
  poolBytes := 32
  poolAlignment := 2
  metricsBytes := 20
  metricsAlignment := 2
  namesBytes := 192
  namesAlignment := 2
  wordAlignment := 2
  alignment_pow := ⟨1, rfl⟩
  poolAlignment_pos := by decide
  metricsAlignment_pos := by decide
  namesAlignment_pos := by decide
  wordAlignment_pos := by decide

/-- Two small blocks of four, one given back twice, and one of the larger class. -/
theorem run_client_safe_twice : ∃ a,
    astraAllocInit m68kTarget [⟨3, 2⟩, ⟨9, 1⟩] 4096 600 (fun _ => 0xff) = .ok a ∧
      (AllocRun.run ⟨a, []⟩ [.alloc 3, .alloc 1, .store 4588 7, .free 4588, .free 4588, .alloc 3,
        .alloc 9, .alloc 2, .free 4589]).live = [(4600, 9), (4588, 3), (4592, 1)] ∧
      ClientSafe m68kTarget 4096 600 (AllocRun.run ⟨a, []⟩ [.alloc 3, .alloc 1, .store 4588 7,
        .free 4588, .free 4588, .alloc 3, .alloc 9, .alloc 2, .free 4589]) :=
  ⟨_, rfl, by decide +kernel,
    @run_client_safe m68kTarget [⟨3, 2⟩, ⟨9, 1⟩] 4096 600 (fun _ => 0xff) _ rfl _⟩

/-- A refused pointer is also recorded as the last status. -/
theorem astraAllocFree_lastStatus : ¬∀ (T : AllocTarget) (classes : List AstraAllocClass)
    (arena arenaBytes : ℕ) (m : Memory) (a : AstraAllocator T),
      astraAllocInit T classes arena arenaBytes m = .ok a → ∀ p, (astraAllocFree a p).1 ≠ .ok →
        (astraAllocFree a p).2
          = { a with metrics := { a.metrics with rejections := a.metrics.rejections + 1 } } := by
  intro h
  have hbad := h m68kTarget [⟨3, 2⟩] 4096 600 (fun _ => 0) _ rfl 1 (by decide +kernel)
  have hstatus := congrArg AstraAllocator.lastStatus hbad
  revert hstatus
  decide +kernel

end Astra
