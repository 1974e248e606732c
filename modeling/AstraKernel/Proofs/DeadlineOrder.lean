import AstraKernel.Heaps
import AstraKernel.Proofs.Deadline
import Mathlib.Data.Prod.Lex

/-!
# The order of the deadline heap

The heap is ordered by deadline and then by slot. Inserting keeps it so. Removing puts the last
entry in the place of the one taken out, and where that has to sink, it is the 16-bit sums of
`deadline_sift_down` that decide: below the position 32767 they are the positions of the children;
from there on an entry has none, and the sums come out at the front of the heap. `SiftFits` says
that what they come out at never comes before the entry.
-/

namespace Astra

open Function List

namespace DeadlineHeap

/-- What the heap is ordered by. -/
def rank (d : DeadlineHeap) (t : Slot) : ℕ ×ₗ ℕ := toLex (d.deadlineCycles t, t)

/-- The heap's entries by position. -/
def ranks (d : DeadlineHeap) (i : ℕ) : ℕ ×ₗ ℕ := d.rank (d.heap.getD i 0)

end DeadlineHeap

variable {d d' : DeadlineHeap} {t : Slot} {i j n p : ℕ}

theorem deadlinePrecedes_iff (d : DeadlineHeap) (left right : Slot) :
    deadlinePrecedes d left right ↔ d.rank left < d.rank right := by
  unfold deadlinePrecedes DeadlineHeap.rank
  rw [Prod.Lex.toLex_lt_toLex]
  split_ifs with h
  · simp [h]
  · rw [not_not] at h
    simp [h]

theorem ranks_of_getElem? (h : d.heap[i]? = some t) : d.ranks i = d.rank t := by
  simp [DeadlineHeap.ranks, getD_eq_getElem?_getD, h]

theorem precedesAt_iff (d : DeadlineHeap) (hi : i < d.heap.length) (hj : j < d.heap.length) :
    precedesAt d i j = true ↔ d.ranks i < d.ranks j := by
  unfold precedesAt
  have hi' := List.getElem?_eq_getElem hi
  have hj' := List.getElem?_eq_getElem hj
  rw [ranks_of_getElem? hi', ranks_of_getElem? hj', hi', hj']
  simp [deadlinePrecedes_iff]

@[simp] theorem length_deadlineSwap (d : DeadlineHeap) (i j : ℕ) :
    (deadlineSwap d i j).heap.length = d.heap.length := by
  unfold deadlineSwap
  split <;> simp

theorem ranks_deadlineSwap (hi : i < d.heap.length) (hj : j < d.heap.length) :
    (deadlineSwap d i j).ranks = swapCells d.ranks i j := by
  funext k
  have hi' := List.getElem?_eq_getElem hi
  have hj' := List.getElem?_eq_getElem hj
  unfold deadlineSwap
  rw [hi', hj']
  simp only [DeadlineHeap.ranks, swapCells, DeadlineHeap.rank, getD_eq_getElem?_getD,
    List.getElem?_set, length_set, hi, hj, hi', hj', Option.getD_some]
  rcases eq_or_ne k i with rfl | hki
  · rcases eq_or_ne j k with rfl | hjk
    · simp
    · simp [hjk]
  · rcases eq_or_ne k j with rfl | hkj
    · simp [hki]
    · simp [hki, hkj, hki.symm, hkj.symm]

/-- In order, the least deadline first. -/
def HeapOrder (d : DeadlineHeap) : Prop := IsHeap d.ranks d.heap.length

/-! ## Sifting up -/

theorem siftUp_order : ∀ {fuel p : ℕ} {d : DeadlineHeap}, p ≤ fuel → p < d.heap.length →
    Rising d.ranks d.heap.length p → HeapOrder (deadlineSiftUp fuel d p)
  | 0, p, d, hle, _, h => h.done fun hpos => by omega
  | fuel + 1, p, d, hle, hp, h => by
    have hprec : precedesAt d p ((p - 1) / 2) = true ↔ d.ranks p < d.ranks ((p - 1) / 2) :=
      precedesAt_iff d hp (by omega)
    rw [deadlineSiftUp]
    dsimp only
    split_ifs with hzero hstop
    · exact h.done fun hpos => by omega
    · refine h.done fun _ => ?_
      by_contra hlt
      rw [(hprec.2 (not_le.1 hlt))] at hstop
      simp at hstop
    · have hlt := hprec.1 (by simpa using hstop)
      refine siftUp_order (by omega) (by rw [length_deadlineSwap]; omega) ?_
      rw [ranks_deadlineSwap hp (by omega), length_deadlineSwap]
      exact h.swap (by omega) hp hlt

/-! ## Sifting down -/

/-- The entry at the position `p` does not sink to where the 16-bit sums come out at an entry that
comes before it, which they do from 32767 on. The place it has left is taken by such an entry. -/
def SiftFits (d : DeadlineHeap) (p : ℕ) : Prop :=
  ∀ q, SinksTo d.ranks d.heap.length (d.ranks p) p q → 32767 ≤ q →
    ∀ w, w = (q * 2 + 1) % 2 ^ 16 ∨ w = (q * 2 + 2) % 2 ^ 16 → w < d.heap.length →
      d.ranks p ≤ d.ranks w ∧ (w = p → q = p)

def siftNext (d : DeadlineHeap) (p : ℕ) : ℕ :=
  let left := p * 2 + 1
  let right := left + 1
  let first := if left < d.heap.length ∧ precedesAt d left p then left else p
  if right < d.heap.length ∧ precedesAt d right first then right else first

section Down

variable (hp : p < d.heap.length)
include hp

theorem siftNext_spec :
    (siftNext d p = p ∧
      ∀ i, 0 < i → i < d.heap.length → (i - 1) / 2 = p → d.ranks p ≤ d.ranks i) ∨
    ((siftNext d p - 1) / 2 = p ∧ 0 < siftNext d p ∧ siftNext d p < d.heap.length ∧
      d.ranks (siftNext d p) < d.ranks p ∧
      ∀ i, 0 < i → i < d.heap.length → (i - 1) / 2 = p → d.ranks (siftNext d p) ≤ d.ranks i) := by
  have hchild : ∀ i, 0 < i → (i - 1) / 2 = p → i = p * 2 + 1 ∨ i = p * 2 + 2 := by omega
  have hl : (p * 2 + 1 < d.heap.length ∧ precedesAt d (p * 2 + 1) p = true) ↔
      p * 2 + 1 < d.heap.length ∧ d.ranks (p * 2 + 1) < d.ranks p :=
    and_congr_right fun h => precedesAt_iff d h hp
  unfold siftNext
  dsimp only
  by_cases h1 : p * 2 + 1 < d.heap.length ∧ d.ranks (p * 2 + 1) < d.ranks p
  · rw [if_pos (hl.2 h1)]
    have hr : (p * 2 + 2 < d.heap.length ∧ precedesAt d (p * 2 + 2) (p * 2 + 1) = true) ↔
        p * 2 + 2 < d.heap.length ∧ d.ranks (p * 2 + 2) < d.ranks (p * 2 + 1) :=
      and_congr_right fun h => precedesAt_iff d h h1.1
    by_cases h2 : p * 2 + 2 < d.heap.length ∧ d.ranks (p * 2 + 2) < d.ranks (p * 2 + 1)
    · rw [if_pos (hr.2 h2)]
      refine .inr ⟨by omega, by omega, h2.1, h2.2.trans h1.2, fun i hi hn hpar => ?_⟩
      rcases hchild i hi hpar with rfl | rfl
      · exact h2.2.le
      · exact le_rfl
    · rw [if_neg (hr.not.2 h2)]
      refine .inr ⟨by omega, by omega, h1.1, h1.2, fun i hi hn hpar => ?_⟩
      rcases hchild i hi hpar with rfl | rfl
      · exact le_rfl
      · exact not_lt.1 fun hlt => h2 ⟨hn, hlt⟩
  · rw [if_neg (hl.not.2 h1)]
    have hr : (p * 2 + 2 < d.heap.length ∧ precedesAt d (p * 2 + 2) p = true) ↔
        p * 2 + 2 < d.heap.length ∧ d.ranks (p * 2 + 2) < d.ranks p :=
      and_congr_right fun h => precedesAt_iff d h hp
    by_cases h2 : p * 2 + 2 < d.heap.length ∧ d.ranks (p * 2 + 2) < d.ranks p
    · rw [if_pos (hr.2 h2)]
      refine .inr ⟨by omega, by omega, h2.1, h2.2, fun i hi hn hpar => ?_⟩
      rcases hchild i hi hpar with rfl | rfl
      · exact h2.2.le.trans (not_lt.1 fun hlt => h1 ⟨hn, hlt⟩)
      · exact le_rfl
    · rw [if_neg (hr.not.2 h2)]
      refine .inl ⟨rfl, fun i hi hn hpar => ?_⟩
      rcases hchild i hi hpar with rfl | rfl
      · exact not_lt.1 fun hlt => h1 ⟨hn, hlt⟩
      · exact not_lt.1 fun hlt => h2 ⟨hn, hlt⟩

theorem siftDownNext_low (hlow : p < 32767) :
    (siftDownNext d p = p ∧
      ∀ i, 0 < i → i < d.heap.length → (i - 1) / 2 = p → d.ranks p ≤ d.ranks i) ∨
    ((siftDownNext d p - 1) / 2 = p ∧ 0 < siftDownNext d p ∧ siftDownNext d p < d.heap.length ∧
      d.ranks (siftDownNext d p) < d.ranks p ∧
      ∀ i, 0 < i → i < d.heap.length → (i - 1) / 2 = p →
        d.ranks (siftDownNext d p) ≤ d.ranks i) := by
  have hleft : (p * 2 + 1) % 2 ^ 16 = p * 2 + 1 := Nat.mod_eq_of_lt (by omega)
  have hright : (p * 2 + 1 + 1) % 2 ^ 16 = p * 2 + 1 + 1 := Nat.mod_eq_of_lt (by omega)
  have hnext : siftDownNext d p = siftNext d p := by
    unfold siftDownNext
    dsimp only
    rw [hleft, hright]
    rfl
  rw [hnext]
  exact siftNext_spec hp

theorem siftDownNext_high (h : SiftFits d p) (hhigh : 32767 ≤ p) : siftDownNext d p = p := by
  have hfits := h p (.here p) hhigh
  have hleft := hfits ((p * 2 + 1) % 2 ^ 16) (.inl rfl)
  have hright := hfits ((p * 2 + 2) % 2 ^ 16) (.inr rfl)
  have hr : ((p * 2 + 1) % 2 ^ 16 + 1) % 2 ^ 16 = (p * 2 + 2) % 2 ^ 16 := by omega
  have h1 : ¬((p * 2 + 1) % 2 ^ 16 < d.heap.length ∧
      precedesAt d ((p * 2 + 1) % 2 ^ 16) p = true) := fun ⟨hlt, hprec⟩ =>
    absurd ((precedesAt_iff d hlt hp).1 hprec) (not_lt.2 (hleft hlt).1)
  have h2 : ¬((p * 2 + 2) % 2 ^ 16 < d.heap.length ∧
      precedesAt d ((p * 2 + 2) % 2 ^ 16) p = true) := fun ⟨hlt, hprec⟩ =>
    absurd ((precedesAt_iff d hlt hp).1 hprec) (not_lt.2 (hright hlt).1)
  unfold siftDownNext
  dsimp only
  rw [hr, if_neg h1, if_neg h2]

end Down

theorem SiftFits.turn {c : ℕ} (h : SiftFits d p) (hp : p < d.heap.length) (hpar : (c - 1) / 2 = p)
    (hpos : 0 < c) (hc : c < d.heap.length) (hlt : d.ranks c < d.ranks p)
    (hleast : ∀ i, 0 < i → i < d.heap.length → (i - 1) / 2 = p → d.ranks c ≤ d.ranks i) :
    SiftFits (deadlineSwap d p c) c := by
  have hne : c ≠ p := by omega
  intro q hq hhigh w hw hwn
  rw [length_deadlineSwap] at hq hwn
  rw [ranks_deadlineSwap hp hc, swapCells_right hne] at hq ⊢
  have hcq := hq.le
  have hq' : SinksTo d.ranks d.heap.length (d.ranks p) c q :=
    hq.congr fun i hi => swapCells_of_ne (by omega) (by omega)
  obtain ⟨hle, hself⟩ := h q (.down hpar hpos hc hlt hleast hq') hhigh w hw hwn
  have hwp : w ≠ p := fun he => by
    have := hself he
    omega
  have hwc : w ≠ c := by
    rintro rfl
    exact absurd hlt (not_lt.2 hle)
  rw [swapCells_of_ne hwp hwc]
  exact ⟨hle, fun he => absurd he hwc⟩

theorem siftDown_order : ∀ {turns p : ℕ} {d : DeadlineHeap}, d.heap.length ≤ turns + p →
    p < d.heap.length → d.heap.length ≤ 65535 → Sinking d.ranks d.heap.length p → SiftFits d p →
    SiftDownEnds d p (deadlineSiftDown turns d p) ∧ HeapOrder (deadlineSiftDown turns d p)
  | 0, p, d, hle, hp, _, _, _ => by omega
  | turns + 1, p, d, hle, hp, hsmall, h, hfits => by
    rw [deadlineSiftDown]
    rcases Nat.lt_or_ge p 32767 with hlow | hhigh
    · rcases siftDownNext_low hp hlow with ⟨hstop, hleast⟩ | ⟨hpar, hpos, hc, hlt, hleast⟩
      · rw [if_pos hstop]
        exact ⟨.here hstop, h.done hleast⟩
      · have hne : siftDownNext d p ≠ p := by omega
        rw [if_neg hne]
        have hlen := length_deadlineSwap d p (siftDownNext d p)
        obtain ⟨hends, horder⟩ := @siftDown_order turns (siftDownNext d p)
          (deadlineSwap d p (siftDownNext d p)) (by omega) (by omega) (by omega)
          (by
            rw [ranks_deadlineSwap hp hc, hlen]
            exact h.swap hpar hpos hc hlt hleast)
          (hfits.turn hp hpar hpos hc hlt hleast)
        exact ⟨.turn hne hends, horder⟩
    · have hstop := siftDownNext_high hp hfits hhigh
      rw [if_pos hstop]
      exact ⟨.here hstop, h.done fun i hi hn hpar => by omega⟩

end Astra
