import Mathlib.Algebra.GroupWithZero.Nat
import Mathlib.Algebra.Order.BigOperators.Group.List

/-!
# Spans

Stretches of given sizes, laid end to end from 0 on. `spanStart sizes k` is where the one with the
index `k` starts.
-/

namespace Astra

open List

def spanStart (sizes : List ℕ) (k : ℕ) : ℕ := (sizes.take k).sum

variable {sizes : List ℕ} {k n p : ℕ}

@[simp] theorem spanStart_zero (sizes : List ℕ) : spanStart sizes 0 = 0 := rfl

theorem spanStart_length (sizes : List ℕ) : spanStart sizes sizes.length = sizes.sum := by
  rw [spanStart, take_length]

theorem spanStart_succ (h : sizes[k]? = some n) : spanStart sizes (k + 1) = spanStart sizes k + n := by
  rw [spanStart, take_add_one, h, sum_append]
  simp [spanStart]

theorem spanStart_mono {j : ℕ} (h : j ≤ k) : spanStart sizes j ≤ spanStart sizes k := by
  obtain ⟨d, rfl⟩ := Nat.exists_eq_add_of_le h
  rw [spanStart, spanStart, take_add, sum_append]
  exact Nat.le_add_right _ _

theorem spanStart_append {more : List ℕ} (h : k ≤ sizes.length) :
    spanStart (sizes ++ more) k = spanStart sizes k := by
  rw [spanStart, take_append_of_le_length h, spanStart]

theorem spanStart_lt {j : ℕ} (hpos : ∀ n ∈ sizes, 0 < n) (h : j < k) (hj : j < sizes.length) :
    spanStart sizes j < spanStart sizes k := by
  have hn := List.getElem?_eq_getElem hj
  calc spanStart sizes j < spanStart sizes j + sizes[j] :=
        Nat.lt_add_of_pos_right (hpos _ (getElem_mem hj))
    _ = spanStart sizes (j + 1) := (spanStart_succ hn).symm
    _ ≤ spanStart sizes k := spanStart_mono h

theorem spanStart_inj {j : ℕ} (hpos : ∀ n ∈ sizes, 0 < n) (hj : j ≤ sizes.length)
    (hk : k ≤ sizes.length) (h : spanStart sizes j = spanStart sizes k) : j = k := by
  rcases lt_trichotomy j k with hlt | rfl | hlt
  · exact absurd h (spanStart_lt hpos hlt (by omega)).ne
  · rfl
  · exact absurd h (spanStart_lt hpos hlt (by omega)).ne'

/-- A place before the end is in one of the stretches. -/
theorem exists_span : ∀ {sizes : List ℕ} {p : ℕ}, p < sizes.sum →
    ∃ k n, sizes[k]? = some n ∧ spanStart sizes k ≤ p ∧ p < spanStart sizes k + n
  | [], p, h => by simp at h
  | size :: sizes, p, h => by
    by_cases hfirst : p < size
    · exact ⟨0, size, rfl, Nat.zero_le _, by simpa using hfirst⟩
    · rw [sum_cons] at h
      obtain ⟨k, n, hk, hle, hlt⟩ := exists_span (show p - size < sizes.sum by omega)
      refine ⟨k + 1, n, by simpa using hk, ?_, ?_⟩ <;>
        simp only [spanStart, take_succ_cons, sum_cons] at hle hlt ⊢ <;> omega

end Astra
