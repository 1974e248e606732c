import Mathlib.Algebra.Group.Nat.Defs
import Mathlib.Data.List.Range

/-!
# Arrays that grow and are compacted in place

An array is its cells and how many of them are used: a list, `listed`. Taking a cell out moves the
cells behind it down by one, so the order of the others is kept; a loop that takes out every cell
of a kind leaves the list filtered. The capacity of an array is doubled until it suffices.
-/

namespace Astra

open Function List

variable {α : Type*} {cell cell' : ℕ → α} {count : ℕ}

/-- The cells in use. -/
def listed (cell : ℕ → α) (count : ℕ) : List α := (List.range count).map cell

@[simp] theorem length_listed : (listed cell count).length = count := by simp [listed]

@[simp] theorem listed_zero : listed cell 0 = [] := rfl

theorem listed_succ : listed cell (count + 1) = listed cell count ++ [cell count] := by
  simp [listed, range_succ]

theorem listed_add (k : ℕ) : listed cell (count + k) = listed cell count ++
    listed (fun i => cell (count + i)) k := by
  simp [listed, range_add, Function.comp_def]

theorem listed_congr (h : ∀ i < count, cell' i = cell i) : listed cell' count = listed cell count :=
  map_congr_left fun i hi => h i (mem_range.1 hi)

/-- A cell written behind the cells in use. -/
theorem listed_update (x : α) : listed (update cell count x) (count + 1) = listed cell count ++ [x] := by
  rw [listed_succ, update_self, listed_congr fun i hi => update_of_ne (Nat.ne_of_lt hi) ..]

/-- `for (i = at; n rounds; ++i) cell[i] = cell[i + 1]`. -/
def moveDown : ℕ → ℕ → (ℕ → α) → ℕ → α
  | 0, _, cell => cell
  | n + 1, i, cell => moveDown n (i + 1) (update cell i (cell (i + 1)))

theorem moveDown_apply : ∀ (n i : ℕ) (cell : ℕ → α) (j : ℕ),
    moveDown n i cell j = if i ≤ j ∧ j < i + n then cell (j + 1) else cell j
  | 0, i, cell, j => by
    rw [if_neg (by omega), moveDown]
  | n + 1, i, cell, j => by
    rw [moveDown, moveDown_apply n (i + 1)]
    rcases lt_trichotomy j i with h | rfl | h
    · rw [if_neg (by omega), if_neg (by omega), update_of_ne (by omega)]
    · rw [if_neg (by omega), if_pos (by omega), update_self]
    · by_cases hj : j < i + 1 + n
      · rw [if_pos (by omega), if_pos (by omega), update_of_ne (by omega)]
      · rw [if_neg (by omega), if_neg (by omega), update_of_ne (by omega)]

/-- `while (i < count)`: a cell of the kind is taken out and the next is looked at in its place; any
other is passed. `n` cells are still to be looked at, so `i + n` are in use. The cells left, how
many they are and how many have been taken out. -/
def compact (gone : α → Bool) : ℕ → ℕ → ℕ → (ℕ → α) → (ℕ → α) × ℕ × ℕ
  | 0, i, removed, cell => (cell, i, removed)
  | n + 1, i, removed, cell =>
    if gone (cell i) then compact gone n i (removed + 1) (moveDown n i cell)
    else compact gone n (i + 1) removed cell

variable (gone : α → Bool)

theorem listed_moveDown (n i : ℕ) (cell : ℕ → α) :
    listed (fun j => moveDown n i cell (i + j)) n = listed (fun j => cell (i + 1 + j)) n := by
  refine listed_congr fun j hj => ?_
  rw [moveDown_apply, if_pos (by omega)]
  congr 1
  omega

theorem listed_compact : ∀ (n i removed : ℕ) (cell : ℕ → α),
    listed (compact gone n i removed cell).1 (compact gone n i removed cell).2.1 =
      listed cell i ++ (listed (fun j => cell (i + j)) n).filter fun x => !gone x
  | 0, i, removed, cell => by simp [compact]
  | n + 1, i, removed, cell => by
    have hsplit : listed (fun j => cell (i + j)) (n + 1) =
        cell i :: listed (fun j => cell (i + 1 + j)) n := by
      rw [Nat.add_comm n 1, listed_add]
      simp [listed, Nat.add_assoc]
    rw [compact, hsplit, filter_cons]
    by_cases hg : gone (cell i)
    · rw [if_pos hg, listed_compact n i, listed_moveDown, if_neg (by simp [hg]),
        listed_congr fun j hj => (moveDown_apply n i cell j).trans (if_neg (by omega))]
    · rw [if_neg hg, listed_compact n (i + 1), listed_succ, if_pos (by simpa using hg),
        append_assoc, singleton_append]

theorem compact_count : ∀ (n i removed : ℕ) (cell : ℕ → α),
    (compact gone n i removed cell).2.1 + (compact gone n i removed cell).2.2 = i + n + removed
  | 0, i, removed, cell => rfl
  | n + 1, i, removed, cell => by
    rw [compact]
    split_ifs
    · rw [compact_count n i]
      omega
    · rw [compact_count n (i + 1)]
      omega

/-- `for (i = 0; i < count; ++i)` with `seen` cells of the kind passed: the one after them. -/
def nthWhere (kind : α → Bool) (wanted : ℕ) : ℕ → ℕ → ℕ → (ℕ → α) → Option α
  | 0, _, _, _ => none
  | n + 1, i, seen, cell =>
    if kind (cell i) then
      if seen = wanted then some (cell i) else nthWhere kind wanted n (i + 1) (seen + 1) cell
    else nthWhere kind wanted n (i + 1) seen cell

theorem nthWhere_eq {kind : α → Bool} {wanted : ℕ} : ∀ (n i seen : ℕ) (cell : ℕ → α),
    seen ≤ wanted → nthWhere kind wanted n i seen cell =
      ((listed (fun j => cell (i + j)) n).filter kind)[wanted - seen]?
  | 0, i, seen, cell, _ => by simp [nthWhere]
  | n + 1, i, seen, cell, hs => by
    have hsplit : listed (fun j => cell (i + j)) (n + 1) =
        cell i :: listed (fun j => cell (i + 1 + j)) n := by
      rw [Nat.add_comm n 1, listed_add]
      simp [listed, Nat.add_assoc]
    rw [nthWhere, hsplit, filter_cons]
    by_cases hk : kind (cell i)
    · rw [if_pos hk, if_pos hk]
      by_cases hw : seen = wanted
      · simp [hw]
      · rw [if_neg hw, nthWhere_eq n (i + 1) (seen + 1) cell (by omega),
          show wanted - seen = wanted - (seen + 1) + 1 by omega, List.getElem?_cons_succ]
    · rw [if_neg hk, if_neg hk, nthWhere_eq n (i + 1) seen cell hs]

/-- `while (capacity < minimum)`: doubled, unless it is over the limit already. -/
def doubleTo (limit : ℕ) : ℕ → ℕ → ℕ → Option ℕ
  | 0, _, _ => none
  | fuel + 1, capacity, minimum =>
    if minimum ≤ capacity then some capacity
    else if limit < capacity then none
    else doubleTo limit fuel (capacity * 2) minimum

variable {limit capacity minimum : ℕ}

theorem doubleTo_ge : ∀ {fuel capacity c : ℕ}, doubleTo limit fuel capacity minimum = some c →
    minimum ≤ c
  | 0, _, _, h => by simp [doubleTo] at h
  | fuel + 1, capacity, c, h => by
    rw [doubleTo] at h
    split_ifs at h with h1 h2
    · cases h
      exact h1
    · exact doubleTo_ge h

end Astra
