import AstraKernel.Memory.Search

/-!
# What the frame search finds

Between two clear bits no run starts. Neither does one before the next aligned frame, nor one that
would hold the blocked frame a failed run has met. So no step of `find_contiguous_frames` passes
over a start, and the two passes of `allocate_frames` miss none, whatever the hint.
-/

namespace Astra

theorem or_thirtyOne (n : ℕ) : n ||| 31 = n - n % 32 + 31 := by
  have hdiv : (n ||| 31) / 32 = n / 32 := by
    have := Nat.or_div_two_pow (a := n) (b := 31) (n := 5)
    simpa using this
  have hmod : (n ||| 31) % 32 = 31 := by
    have := Nat.or_mod_two_pow (a := n) (b := 31) (n := 5)
    have hall : ∀ r < 32, r ||| 31 = 31 := by decide
    rw [show (2 : ℕ) ^ 5 = 32 from rfl] at this
    rw [this]
    exact hall _ (Nat.mod_lt _ (by decide))
  omega

section Bits

variable {bitmap : ℕ → BitVec 32} {index last i j : ℕ}

theorem bitTest_of_lt_ctz (hclear : index ≤ j) (hword : j / 32 = index / 32)
    (hlt : j % 32 < (clearBits (bitmap (index / 32)) (index % 32)).ctz.toNat) :
    bitTest bitmap j = true := by
  have hbit := BitVec.getLsbD_false_of_lt_ctz hlt
  have hle : index % 32 ≤ j % 32 := by omega
  rw [getLsbD_clearBits _ (Nat.mod_lt _ (by decide))] at hbit
  rw [bitTest, hword]
  simpa [hle] using hbit

theorem bitTest_of_clearBits_eq_zero (hzero : clearBits (bitmap (index / 32)) (index % 32) = 0)
    (hle : index ≤ j) (hword : j / 32 = index / 32) : bitTest bitmap j = true := by
  have hbit := @getLsbD_clearBits (bitmap (index / 32)) (index % 32) _
    (Nat.mod_lt j (by decide : 0 < 32))
  have hle : index % 32 ≤ j % 32 := by omega
  rw [hzero] at hbit
  rw [bitTest, hword]
  simpa [hle] using hbit

theorem nextClearBit_some (h : nextClearBit bitmap index last = some i) :
    bitTest bitmap i = false ∧ ∀ j, index ≤ j → j < i → bitTest bitmap j = true := by
  induction index using nextClearBit.induct bitmap last with
  | case1 index hle clear hclear next hnext =>
    rw [nextClearBit, if_pos hle, if_pos hclear, if_pos hnext] at h
    cases h
    obtain ⟨hlt, hlow, hbit⟩ := ctz_clearBits hclear
    refine ⟨?_, fun j hj hlt' => ?_⟩
    · have hword : (index - index % 32 + (clearBits (bitmap (index / 32)) (index % 32)).ctz.toNat)
          / 32 = index / 32 := by omega
      have hpos : (index - index % 32 + (clearBits (bitmap (index / 32)) (index % 32)).ctz.toNat)
          % 32 = (clearBits (bitmap (index / 32)) (index % 32)).ctz.toNat := by omega
      rw [bitTest, hword, hpos]
      exact hbit
    · exact bitTest_of_lt_ctz hj (by omega) (by omega)
  | case2 index hle clear hclear next hnext =>
    rw [nextClearBit, if_pos hle, if_pos hclear, if_neg hnext] at h
    simp at h
  | case3 index hle clear hclear ih =>
    rw [nextClearBit, if_pos hle, if_neg hclear] at h
    obtain ⟨hbit, hset⟩ := ih h
    refine ⟨hbit, fun j hj hlt => ?_⟩
    rw [or_thirtyOne] at hset
    rcases Nat.lt_or_ge j (index - index % 32 + 31 + 1) with hword | hnext
    · exact bitTest_of_clearBits_eq_zero (not_not.1 hclear) hj (by omega)
    · exact hset j hnext hlt
  | case4 index hle =>
    rw [nextClearBit, if_neg hle] at h
    simp at h

theorem nextClearBit_none (h : nextClearBit bitmap index last = none) :
    ∀ j, index ≤ j → j ≤ last → bitTest bitmap j = true := by
  induction index using nextClearBit.induct bitmap last with
  | case1 index hle clear hclear next hnext =>
    rw [nextClearBit, if_pos hle, if_pos hclear, if_pos hnext] at h
    simp at h
  | case2 index hle clear hclear next hnext =>
    intro j hj hjl
    have hlt := (ctz_clearBits hclear).1
    have hnext' : last < index - index % 32 +
        (clearBits (bitmap (index / 32)) (index % 32)).ctz.toNat := Nat.lt_of_not_le hnext
    exact bitTest_of_lt_ctz hj (by omega) (by omega)
  | case3 index hle clear hclear ih =>
    rw [nextClearBit, if_pos hle, if_neg hclear] at h
    intro j hj hjl
    have hset := ih h
    rw [or_thirtyOne] at hset
    rcases Nat.lt_or_ge j (index - index % 32 + 31 + 1) with hword | hnext
    · exact bitTest_of_clearBits_eq_zero (not_not.1 hclear) hj (by omega)
    · exact hset j hnext hjl
  | case4 index hle => exact fun j hj hjl => absurd (hj.trans hjl) hle

theorem clearFrames_spec (first : ℕ) : ∀ left index : ℕ,
    index ≤ clearFrames bitmap first left index ∧
      clearFrames bitmap first left index ≤ index + left ∧
      (∀ i, index ≤ i → i < clearFrames bitmap first left index →
        bitTest bitmap (first + i) = false) ∧
      (clearFrames bitmap first left index < index + left →
        bitTest bitmap (first + clearFrames bitmap first left index) = true)
  | 0, index => by
    simp only [clearFrames]
    exact ⟨le_rfl, le_rfl, fun i h1 h2 => by omega, fun h => by omega⟩
  | left + 1, index => by
    rw [clearFrames]
    split
    · rename_i hset
      exact ⟨le_rfl, by omega, fun i h1 h2 => by omega, fun _ => hset⟩
    · rename_i hclear
      obtain ⟨h1, h2, h3, h4⟩ := clearFrames_spec first left (index + 1)
      refine ⟨by omega, by omega, fun i hi hlt => ?_, fun h => h4 (by omega)⟩
      rcases Nat.eq_or_lt_of_le hi with rfl | hi
      · simpa using hclear
      · exact h3 i hi hlt

end Bits

theorem mod_ne_zero_of_lt {x d n : ℕ} (hx : x % n ≠ 0) (hd : d < n - x % n) : (x + d) % n ≠ 0 := by
  rw [Nat.add_mod, Nat.mod_eq_of_lt (show d < n by omega), Nat.mod_eq_of_lt (by omega)]
  omega

namespace KernelFrameMap

variable {m : KernelFrameMap} {frameCount alignmentFrames last first : ℕ}

structure IsStart (m : KernelFrameMap) (frameCount alignmentFrames first : ℕ) : Prop where
  clear : ∀ i < frameCount, bitTest m.blockedBitmap (first + i) = false
  aligned : (m.ramBase / kernelPageSize + first) % alignmentFrames = 0

def IsMask (alignmentFrames : ℕ) : Prop := ∀ x, x &&& (alignmentFrames - 1) = x % alignmentFrames

theorem isMask_of_power (hne : alignmentFrames ≠ 0)
    (hpower : alignmentFrames &&& (alignmentFrames - 1) = 0) : IsMask alignmentFrames :=
  and_sub_one_eq_mod hne hpower

theorem IsStart.not_blocked (h : m.IsStart frameCount alignmentFrames first) {i : ℕ}
    (hle : first ≤ i) (hlt : i < first + frameCount) : bitTest m.blockedBitmap i = false := by
  have := h.clear (i - first) (by omega)
  rwa [Nat.add_sub_cancel' hle] at this

theorem findContiguousFrames_next {next : ℕ} (hle : first ≤ last)
    (hnext : nextClearBit m.blockedBitmap first last = some next) :
    m.findContiguousFrames frameCount alignmentFrames last first =
      if (m.ramBase / kernelPageSize + next) &&& (alignmentFrames - 1) ≠ 0 then
        if alignmentFrames - ((m.ramBase / kernelPageSize + next) &&& (alignmentFrames - 1)) >
            last - next then none
        else m.findContiguousFrames frameCount alignmentFrames last
          (next + (alignmentFrames -
            ((m.ramBase / kernelPageSize + next) &&& (alignmentFrames - 1))))
      else if clearFrames m.blockedBitmap next frameCount 0 = frameCount then some next
      else if clearFrames m.blockedBitmap next frameCount 0 + 1 > last - next then none
      else m.findContiguousFrames frameCount alignmentFrames last
        (next + clearFrames m.blockedBitmap next frameCount 0 + 1) := by
  rw [findContiguousFrames, if_pos hle]
  split
  · rename_i h
    rw [hnext] at h
    simp at h
  · rename_i i h
    cases hnext.symm.trans h
    rfl

def Searched (m : KernelFrameMap) (frameCount alignmentFrames last first : ℕ) : Option ℕ → Prop
  | some found => first ≤ found ∧ found ≤ last ∧ m.IsStart frameCount alignmentFrames found
  | none => ∀ g, first ≤ g → g ≤ last → ¬m.IsStart frameCount alignmentFrames g

theorem Searched.skip {next : ℕ} {r : Option ℕ}
    (h : m.Searched frameCount alignmentFrames last next r) (hle : first ≤ next)
    (hno : ∀ g, first ≤ g → g < next → ¬m.IsStart frameCount alignmentFrames g) :
    m.Searched frameCount alignmentFrames last first r := by
  cases r with
  | some found => exact ⟨hle.trans h.1, h.2⟩
  | none =>
    intro g hg hgl
    rcases Nat.lt_or_ge g next with hlt | hge
    · exact hno g hg hlt
    · exact h g hge hgl

theorem searched_none {next : ℕ} (hlast : last < next)
    (hno : ∀ g, first ≤ g → g < next → ¬m.IsStart frameCount alignmentFrames g) :
    m.Searched frameCount alignmentFrames last first none :=
  fun g hg hgl => hno g hg (by omega)

section Rounds

variable {next : ℕ} (hcount : 0 < frameCount)
  (hnext : nextClearBit m.blockedBitmap first last = some next)
include hcount hnext

theorem not_isStart_before {g : ℕ} (hg : first ≤ g) (hlt : g < next) :
    ¬m.IsStart frameCount alignmentFrames g := by
  intro hstart
  have hset := (nextClearBit_some hnext).2 g hg hlt
  rw [hstart.not_blocked le_rfl (by omega)] at hset
  simp at hset

theorem not_isStart_misaligned (hmask : IsMask alignmentFrames)
    (hmis : (m.ramBase / kernelPageSize + next) &&& (alignmentFrames - 1) ≠ 0) {g : ℕ}
    (hg : first ≤ g)
    (hlt : g < next + (alignmentFrames -
      ((m.ramBase / kernelPageSize + next) &&& (alignmentFrames - 1)))) :
    ¬m.IsStart frameCount alignmentFrames g := by
  rcases Nat.lt_or_ge g next with hbefore | hge
  · exact not_isStart_before hcount hnext hg hbefore
  · intro hstart
    rw [hmask] at hmis hlt
    refine mod_ne_zero_of_lt (d := g - next) hmis (by omega) ?_
    rw [Nat.add_assoc, Nat.add_sub_cancel' hge]
    exact hstart.aligned

theorem not_isStart_blocked (hfree : clearFrames m.blockedBitmap next frameCount 0 ≠ frameCount)
    {g : ℕ} (hg : first ≤ g)
    (hlt : g < next + clearFrames m.blockedBitmap next frameCount 0 + 1) :
    ¬m.IsStart frameCount alignmentFrames g := by
  rcases Nat.lt_or_ge g next with hbefore | hge
  · exact not_isStart_before hcount hnext hg hbefore
  · intro hstart
    obtain ⟨-, hbound, -, hblocked⟩ :=
      @clearFrames_spec m.blockedBitmap next frameCount 0
    rw [hstart.not_blocked (by omega) (by omega)] at hblocked
    have := hblocked (by omega)
    simp at this

end Rounds

theorem findContiguousFrames_searched (hcount : 0 < frameCount) (hmask : IsMask alignmentFrames)
    (first : ℕ) : m.Searched frameCount alignmentFrames last first
      (m.findContiguousFrames frameCount alignmentFrames last first) := by
  induction first using findContiguousFrames.induct m frameCount alignmentFrames last with
  | case1 first hle hnext =>
    rw [findContiguousFrames, if_pos hle]
    split
    · intro g hg hgl hstart
      have hset := nextClearBit_none hnext g hg hgl
      rw [hstart.not_blocked le_rfl (by omega)] at hset
      simp at hset
    · rename_i h
      rw [hnext] at h
      simp at h
  | case2 first hle next hnext misalignment hmis skip hskip =>
    rw [findContiguousFrames_next hle hnext, if_pos hmis, if_pos hskip]
    have hge := nextClearBit_ge hnext
    exact searched_none (by omega) fun g hg =>
      not_isStart_misaligned hcount hnext hmask hmis hg
  | case3 first hle next hnext misalignment hmis skip hskip ih =>
    rw [findContiguousFrames_next hle hnext, if_pos hmis, if_neg hskip]
    have hge := nextClearBit_ge hnext
    exact ih.skip (by omega) fun g hg => not_isStart_misaligned hcount hnext hmask hmis hg
  | case4 first hle next hnext misalignment hmis unavailable hfree =>
    rw [findContiguousFrames_next hle hnext, if_neg hmis, if_pos hfree]
    have hge := nextClearBit_ge hnext
    obtain ⟨-, -, hclear, -⟩ := @clearFrames_spec m.blockedBitmap next frameCount 0
    rw [show clearFrames m.blockedBitmap next frameCount 0 = frameCount from hfree] at hclear
    refine ⟨hge.1, hge.2, fun i hi => hclear i (by omega) hi, ?_⟩
    rw [← hmask]
    exact not_not.1 hmis
  | case5 first hle next hnext misalignment hmis unavailable hfree hend =>
    rw [findContiguousFrames_next hle hnext, if_neg hmis, if_neg hfree, if_pos hend]
    have hge := nextClearBit_ge hnext
    exact searched_none (by omega) fun g hg => not_isStart_blocked hcount hnext hfree hg
  | case6 first hle next hnext misalignment hmis unavailable hfree hend ih =>
    rw [findContiguousFrames_next hle hnext, if_neg hmis, if_neg hfree, if_neg hend]
    have hge := nextClearBit_ge hnext
    exact ih.skip (by omega) fun g hg => not_isStart_blocked hcount hnext hfree hg
  | case7 first hle =>
    rw [findContiguousFrames, if_neg hle]
    exact fun g hg hgl => absurd (hg.trans hgl) hle

theorem searchFromHint_searched (hcount : 0 < frameCount) (hmask : IsMask alignmentFrames)
    (last : ℕ) : m.Searched frameCount alignmentFrames last 0
      (m.searchFromHint frameCount alignmentFrames last) := by
  have hsearch := fun last first =>
    @findContiguousFrames_searched m frameCount alignmentFrames last hcount hmask first
  unfold searchFromHint
  dsimp only
  split
  · rename_i first hfirst
    split_ifs at hfirst with hhint
    have := hsearch last m.contiguousSearchHint
    rw [hfirst] at this
    exact ⟨Nat.zero_le _, this.2⟩
  · rename_i hfirst
    have habove : ∀ g, m.contiguousSearchHint ≤ g → g ≤ last →
        ¬m.IsStart frameCount alignmentFrames g := by
      intro g hg hgl
      rw [if_pos (hg.trans hgl)] at hfirst
      have := hsearch last m.contiguousSearchHint
      rw [hfirst] at this
      exact this g hg hgl
    split_ifs with hhint hwrap
    · have := hsearch last 0
      exact this
    · have := hsearch (m.contiguousSearchHint - 1) 0
      cases hfound : m.findContiguousFrames frameCount alignmentFrames
          (m.contiguousSearchHint - 1) 0 with
      | some found =>
        rw [hfound] at this
        exact ⟨this.1, by have := this.2.1; omega, this.2.2⟩
      | none =>
        rw [hfound] at this
        intro g hg hgl
        rcases Nat.lt_or_ge g m.contiguousSearchHint with hlt | hge
        · exact this g hg (by omega)
        · exact habove g hge hgl
    · exact fun g _ hgl => habove g (by omega) hgl

theorem Searched.correct {r : Option ℕ} (h : m.Searched frameCount alignmentFrames last first r) :
    (∀ found, r = some found → first ≤ found ∧ found ≤ last ∧
      m.IsStart frameCount alignmentFrames found) ∧
    ((∃ found, r = some found) ↔
      ∃ g, first ≤ g ∧ g ≤ last ∧ m.IsStart frameCount alignmentFrames g) := by
  cases r with
  | some found =>
    refine ⟨fun found' h' => ?_, fun _ => ⟨found, h⟩, fun _ => ⟨found, rfl⟩⟩
    cases h'
    exact h
  | none =>
    refine ⟨fun found h' => by simp at h', fun ⟨_, h'⟩ => by simp at h', ?_⟩
    rintro ⟨g, hg, hgl, hstart⟩
    exact absurd hstart (h g hg hgl)

/-- Whatever the bitmap and the hint, the two passes come to a permitted start whose run is clear and
whose physical frame is aligned if and only if there is one. -/
theorem searchFromHint_correct (m : KernelFrameMap) (last : ℕ) (hcount : frameCount ≠ 0)
    (hne : alignmentFrames ≠ 0) (hpower : alignmentFrames &&& (alignmentFrames - 1) = 0) :
    (∀ first, m.searchFromHint frameCount alignmentFrames last = some first →
      first ≤ last ∧ (∀ i < frameCount, bitTest m.blockedBitmap (first + i) = false) ∧
        (m.ramBase / kernelPageSize + first) % alignmentFrames = 0) ∧
    ((∃ first, m.searchFromHint frameCount alignmentFrames last = some first) ↔
      ∃ first ≤ last, (∀ i < frameCount, bitTest m.blockedBitmap (first + i) = false) ∧
        (m.ramBase / kernelPageSize + first) % alignmentFrames = 0) := by
  obtain ⟨hsound, hcomplete⟩ := (searchFromHint_searched (m := m) (Nat.pos_of_ne_zero hcount)
    (isMask_of_power hne hpower) last).correct
  refine ⟨fun first h => ?_, hcomplete.trans ⟨?_, ?_⟩⟩
  · obtain ⟨-, hle, hstart⟩ := hsound first h
    exact ⟨hle, hstart.clear, hstart.aligned⟩
  · rintro ⟨first, -, hle, hstart⟩
    exact ⟨first, hle, hstart.clear, hstart.aligned⟩
  · rintro ⟨first, hle, hclear, haligned⟩
    exact ⟨first, Nat.zero_le _, hle, hclear, haligned⟩

/-- A machine of 64 frames from the physical frame 3 on, with those from 5 to 36 blocked. -/
theorem searchFromHint_correct_blocked :
    ∃ first, KernelFrameMap.searchFromHint
      ⟨fun w => if w = 0 then 0xFFFFFFE0 else 0x1F, 3 * kernelPageSize, 64, 40, 0, 0⟩ 4 4 60 =
        some first :=
  (searchFromHint_correct _ 60 (by decide) (by decide) (by decide)).2.2
    ⟨37, by decide, by decide, by decide⟩

theorem allocateSearch_searched (hcount : 0 < frameCount) (hmask : IsMask alignmentFrames)
    (dma : Bool) :
    (∃ first, m.allocateSearch frameCount alignmentFrames dma = some first ∧ dma = true ∧
      m.dmaZoneFirst ≤ first ∧ first ≤ m.dmaZoneFirst + m.dmaZoneFrames - frameCount ∧
      m.IsStart frameCount alignmentFrames first) ∨
    m.Searched frameCount alignmentFrames (m.lastStart frameCount dma) 0
      (m.allocateSearch frameCount alignmentFrames dma) := by
  unfold allocateSearch
  dsimp only
  split
  · rename_i first hfirst
    split_ifs at hfirst with hzone
    have := @findContiguousFrames_searched m frameCount alignmentFrames
      (m.dmaZoneFirst + m.dmaZoneFrames - frameCount) hcount hmask m.dmaZoneFirst
    rw [hfirst] at this
    exact .inl ⟨first, rfl, hzone.2.1, this⟩
  · exact .inr (searchFromHint_searched hcount hmask _)

end KernelFrameMap

end Astra
