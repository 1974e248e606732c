import Mathlib.Order.Lattice

/-!
# Binary heaps

The parent of the position `i` is `(i - 1) / 2`, and no position comes before its parent. A position
may be out of order with its parent alone (`Rising`) or with its children alone (`Sinking`), as long as
its parent is in order with its children. Exchanged with its parent, or with the least of its children,
it leaves the same one level up, or down. `SinksTo` is the way that an entry goes down.
-/

namespace Astra

variable {κ : Type*} {cell cell' : ℕ → κ} {n p c i j : ℕ}

def swapCells (cell : ℕ → κ) (i j : ℕ) : ℕ → κ := fun k =>
  if k = i then cell j else if k = j then cell i else cell k

theorem swapCells_left : swapCells cell i j i = cell j := by simp [swapCells]

theorem swapCells_right (h : j ≠ i) : swapCells cell i j j = cell i := by simp [swapCells, h]

theorem swapCells_of_ne {k : ℕ} (hi : k ≠ i) (hj : k ≠ j) : swapCells cell i j k = cell k := by
  simp [swapCells, hi, hj]

variable [LinearOrder κ]

/-- The first `n` positions are in order. -/
def IsHeap (cell : ℕ → κ) (n : ℕ) : Prop :=
  ∀ i, 0 < i → i < n → cell ((i - 1) / 2) ≤ cell i

/-- In order but for the position `p`, which may belong further up. -/
structure Rising (cell : ℕ → κ) (n p : ℕ) : Prop where
  order : ∀ i, 0 < i → i < n → i ≠ p → cell ((i - 1) / 2) ≤ cell i
  grand : ∀ i, 0 < i → i < n → (i - 1) / 2 = p → 0 < p → cell ((p - 1) / 2) ≤ cell i

/-- In order but for the position `p`, which may belong further down. -/
structure Sinking (cell : ℕ → κ) (n p : ℕ) : Prop where
  order : ∀ i, 0 < i → i < n → (i - 1) / 2 ≠ p → cell ((i - 1) / 2) ≤ cell i
  grand : ∀ i, 0 < i → i < n → (i - 1) / 2 = p → 0 < p → cell ((p - 1) / 2) ≤ cell i

namespace IsHeap

theorem congr (h : IsHeap cell n) (heq : ∀ i < n, cell' i = cell i) : IsHeap cell' n := by
  intro i hi hn
  rw [heq i hn, heq _ (by omega)]
  exact h i hi hn

/-- The root comes first. -/
theorem root_le (h : IsHeap cell n) : ∀ i < n, cell 0 ≤ cell i := by
  intro i
  induction i using Nat.strong_induction_on with
  | _ i ih =>
    intro hi
    rcases Nat.eq_zero_or_pos i with rfl | hpos
    · exact le_rfl
    · exact (ih ((i - 1) / 2) (by omega) (by omega)).trans (h i hpos hi)

/-- A new last entry may have to rise. -/
theorem append (h : IsHeap cell n) (heq : ∀ i < n, cell' i = cell i) : Rising cell' (n + 1) n where
  order i hi hn hne := h.congr heq i hi (by omega)
  grand i hi hn hpar hpos := by omega

variable (h : IsHeap cell (n + 1)) (hp : p < n) (hcell : ∀ i < n, i ≠ p → cell' i = cell i)
include h hp hcell

theorem grand_of_replaced (hi : 0 < i) (hn : i < n) (hpar : (i - 1) / 2 = p) (hpos : 0 < p) :
    cell' ((p - 1) / 2) ≤ cell' i := by
  rw [hcell i hn (by omega), hcell ((p - 1) / 2) (by omega) (by omega)]
  have := h i hi (by omega)
  rw [hpar] at this
  exact (h p hpos (by omega)).trans this

/-- What replaces an entry and comes before its parent has to rise. -/
theorem replace_rising (hpos : 0 < p) (hlt : cell' p < cell' ((p - 1) / 2)) : Rising cell' n p where
  order i hi hn hne := by
    rw [hcell i hn hne]
    by_cases hpar : (i - 1) / 2 = p
    · have hgrand := h.grand_of_replaced hp hcell hi hn hpar hpos
      rw [hcell i hn hne] at hgrand
      rw [hpar]
      exact hlt.le.trans hgrand
    · rw [hcell _ (by omega) hpar]
      exact h i hi (by omega)
  grand _ hi hn hpar _ := h.grand_of_replaced hp hcell hi hn hpar hpos

/-- What replaces an entry and does not come before its parent has to sink. -/
theorem replace_sinking (hle : 0 < p → cell' ((p - 1) / 2) ≤ cell' p) : Sinking cell' n p where
  order i hi hn hpar := by
    rcases eq_or_ne i p with rfl | hne
    · exact hle hi
    · rw [hcell i hn hne, hcell _ (by omega) hpar]
      exact h i hi (by omega)
  grand _ hi hn hpar hpos := h.grand_of_replaced hp hcell hi hn hpar hpos

end IsHeap

namespace Rising

theorem swap (h : Rising cell n p) (hpos : 0 < p) (hp : p < n) (hlt : cell p < cell ((p - 1) / 2)) :
    Rising (swapCells cell p ((p - 1) / 2)) n ((p - 1) / 2) where
  order i hi hn hne := by
    rcases eq_or_ne i p with rfl | hip
    · rw [swapCells_left, swapCells_right (by omega)]
      exact hlt.le
    · rw [swapCells_of_ne hip hne]
      rcases eq_or_ne ((i - 1) / 2) p with hpar | hpar
      · rw [hpar, swapCells_left]
        exact h.grand i hi hn hpar hpos
      · rcases eq_or_ne ((i - 1) / 2) ((p - 1) / 2) with hsib | hsib
        · rw [hsib, swapCells_right (by omega)]
          have := h.order i hi hn hip
          rw [hsib] at this
          exact hlt.le.trans this
        · rw [swapCells_of_ne hpar hsib]
          exact h.order i hi hn hip
  grand i hi hn hpar hq := by
    rw [swapCells_of_ne (by omega) (by omega)]
    have habove := h.order _ hq (by omega) (by omega)
    rcases eq_or_ne i p with rfl | hip
    · rw [swapCells_left]
      exact habove
    · rw [swapCells_of_ne hip (by omega)]
      have := h.order i hi hn hip
      rw [hpar] at this
      exact habove.trans this

theorem done (h : Rising cell n p) (hp : 0 < p → cell ((p - 1) / 2) ≤ cell p) : IsHeap cell n := by
  intro i hi hn
  rcases eq_or_ne i p with rfl | hip
  · exact hp hi
  · exact h.order i hi hn hip

end Rising

namespace Sinking

theorem swap (h : Sinking cell n p) (hpar : (c - 1) / 2 = p) (hpos : 0 < c) (hc : c < n)
    (hlt : cell c < cell p)
    (hleast : ∀ i, 0 < i → i < n → (i - 1) / 2 = p → cell c ≤ cell i) :
    Sinking (swapCells cell p c) n c where
  order i hi hn hne := by
    rcases eq_or_ne i p with rfl | hip
    · rw [swapCells_left, swapCells_of_ne (by omega) (by omega)]
      exact h.grand c hpos hc hpar hi
    rcases eq_or_ne i c with rfl | hic
    · rw [hpar, swapCells_left, swapCells_right hip]
      exact hlt.le
    rw [swapCells_of_ne hip hic]
    rcases eq_or_ne ((i - 1) / 2) p with hsib | hsib
    · rw [hsib, swapCells_left]
      exact hleast i hi hn hsib
    · rw [swapCells_of_ne hsib hne]
      exact h.order i hi hn hsib
  grand i hi hn hi' _ := by
    rw [hpar, swapCells_left, swapCells_of_ne (by omega) (by omega)]
    have := h.order i hi hn (by omega)
    rwa [hi'] at this

theorem done (h : Sinking cell n p)
    (hp : ∀ i, 0 < i → i < n → (i - 1) / 2 = p → cell p ≤ cell i) : IsHeap cell n := by
  intro i hi hn
  rcases eq_or_ne ((i - 1) / 2) p with hpar | hpar
  · rw [hpar]
    exact hp i hi hn hpar
  · exact h.order i hi hn hpar

end Sinking

/-- The way an entry sinks: to the least child, where that comes before it. -/
inductive SinksTo (cell : ℕ → κ) (n : ℕ) (x : κ) : ℕ → ℕ → Prop
  | here (p : ℕ) : SinksTo cell n x p p
  | down {p c q : ℕ} : (c - 1) / 2 = p → 0 < c → c < n → cell c < x →
      (∀ i, 0 < i → i < n → (i - 1) / 2 = p → cell c ≤ cell i) → SinksTo cell n x c q →
      SinksTo cell n x p q

theorem SinksTo.le {x : κ} {q : ℕ}
    (h : SinksTo cell n x p q) : p ≤ q := by
  induction h with
  | here => exact Nat.le_refl _
  | down hpar hpos _ _ _ _ ih => omega

theorem SinksTo.congr {x : κ} {q : ℕ}
    (h : SinksTo cell' n x p q) (heq : ∀ i, p < i → cell' i = cell i) : SinksTo cell n x p q := by
  induction h with
  | here p => exact .here p
  | @down p c q hpar hpos hc hlt hleast _ ih =>
    have hcell : cell' c = cell c := heq c (by omega)
    refine .down hpar hpos hc (hcell ▸ hlt) (fun i hi hn hi' => ?_)
      (ih fun i hi => heq i (by omega))
    rw [← hcell, ← heq i (by omega)]
    exact hleast i hi hn hi'

end Astra
