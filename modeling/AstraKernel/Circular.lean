import Mathlib.Data.List.Range
import Mathlib.Data.Nat.ModEq

/-!
# Circular buffers

A stream is kept in a buffer of `n` cells, the value at its position `i` in the cell `i % n`. As much
of the stream as `n` values can be there at a time: a `window`. Values put at positions that are less
than `n` past a window's start, and not in it, leave the window as it is.
-/

namespace Astra

open List

variable {α : Type*} {cell cell' : ℕ → α} {n start len len' : ℕ} {value : ℕ → α}

/-- The `len` values of the stream from the position `start` on. -/
def window (cell : ℕ → α) (n start len : ℕ) : List α :=
  (List.range len).map fun i => cell ((start + i) % n)

/-- Nothing has changed but the cells of `len` positions. -/
def Touched (cell cell' : ℕ → α) (n start len : ℕ) : Prop :=
  ∀ j < n, (∀ i < len, (start + i) % n ≠ j) → cell' j = cell j

/-- Values have been put at the `len` positions from `start` on. -/
structure Stored (cell cell' : ℕ → α) (n start len : ℕ) (value : ℕ → α) : Prop where
  kept : Touched cell cell' n start len
  put : ∀ i < len, cell' ((start + i) % n) = value i

@[simp] theorem window_length (cell : ℕ → α) (n start len : ℕ) :
    (window cell n start len).length = len := by
  simp [window]

theorem window_add (cell : ℕ → α) (n start len len' : ℕ) :
    window cell n start (len + len') = window cell n start len ++ window cell n (start + len) len' := by
  simp [window, range_add, Nat.add_assoc, Function.comp_def]

theorem window_congr (h : ∀ i < len, cell' ((start + i) % n) = cell ((start + i) % n)) :
    window cell' n start len = window cell n start len := by
  refine map_congr_left fun i hi => h i (mem_range.1 hi)

variable {first index k p start' : ℕ}

theorem window_take (h : k ≤ len) : (window cell n start len).take k = window cell n start k := by
  obtain ⟨d, rfl⟩ := Nat.exists_eq_add_of_le h
  rw [window_add, take_left' (window_length ..)]

theorem window_drop (h : k ≤ len) :
    (window cell n start len).drop k = window cell n (start + k) (len - k) := by
  obtain ⟨d, rfl⟩ := Nat.exists_eq_add_of_le h
  rw [window_add, drop_left' (window_length ..), Nat.add_sub_cancel_left]

theorem start_congr (h : start % n = start' % n) (i : ℕ) : (start + i) % n = (start' + i) % n := by
  rw [Nat.add_mod, h, ← Nat.add_mod]

theorem window_start (h : start % n = start' % n) :
    window cell n start len = window cell n start' len :=
  map_congr_left fun i _ => congrArg cell (start_congr h i)

theorem Touched.of_start (ht : Touched cell cell' n start len)
    (h : start % n = start' % n) : Touched cell cell' n start' len :=
  fun j hj hi => ht j hj fun i hlt => start_congr h i ▸ hi i hlt

theorem Stored.of_start (hs : Stored cell cell' n start len value)
    (h : start % n = start' % n) : Stored cell cell' n start' len value :=
  ⟨hs.kept.of_start h, fun i hi => start_congr h i ▸ hs.put i hi⟩

/-- Two positions less than `n` apart are in different cells. -/
theorem mod_ne_of_lt {a b : ℕ} (h : a < b) (hb : b < a + n) : a % n ≠ b % n := by
  intro he
  have hdvd : n ∣ b - a := (Nat.modEq_iff_dvd' (Nat.le_of_lt h)).1 he
  have := Nat.le_of_dvd (by omega) hdvd
  omega

/-- A window that ends where the cells that are touched begin is left as it is. -/
theorem Touched.window (h : Touched cell cell' n start len) (hn : 0 < n)
    (hbefore : p + k ≤ start) (hafter : start + len ≤ p + n) :
    window cell' n p k = window cell n p k := by
  refine window_congr fun i hi => h _ (Nat.mod_lt _ hn) fun j hj => ?_
  exact (mod_ne_of_lt (by omega) (by omega)).symm

/-- A position less than `n` past the ones that are touched, or before them, is left as it is. -/
theorem Touched.at (h : Touched cell cell' n start len) (hn : 0 < n)
    (hp : p < start ∧ start + len ≤ p + n ∨ start + len ≤ p ∧ p < start + n) :
    cell' (p % n) = cell (p % n) := by
  refine h _ (Nat.mod_lt _ hn) fun j hj => ?_
  rcases hp with ⟨h1, h2⟩ | ⟨h1, h2⟩
  · exact (mod_ne_of_lt (by omega) (by omega)).symm
  · exact mod_ne_of_lt (by omega) (by omega)

theorem Stored.window (h : Stored cell cell' n start len value) :
    window cell' n start len = (List.range len).map value :=
  map_congr_left fun i hi => h.put i (mem_range.1 hi)

section

variable (hindex : start % n = index)
include hindex

/-- Where a position is, that is `i` past one in the cell `index`. -/
theorem mod_add_of_index {i : ℕ} (hlt : index < n) (hi : i < n) :
    (start + i) % n = if index + i < n then index + i else index + i - n := by
  rw [Nat.add_mod, hindex, Nat.mod_eq_of_lt hi]
  split_ifs with h
  · exact Nat.mod_eq_of_lt h
  · rw [Nat.mod_eq_sub_mod (by omega), Nat.mod_eq_of_lt (by omega)]

/-- A copy that goes on at the buffer's start when it reaches the buffer's end: `first` values go
from the cell `index` on, and the rest from the cell 0 on. -/
theorem Touched.of_segments (hn : 0 < n) (hlen : len ≤ n) (hfirst : first = min len (n - index))
    (h : ∀ j < n, (j < index ∨ index + first ≤ j) → len - first ≤ j → cell' j = cell j) :
    Touched cell cell' n start len := by
  have hlt : index < n := hindex ▸ Nat.mod_lt _ hn
  intro j hj hi
  refine h j hj ?_ ?_
  · by_contra hin
    push Not at hin
    refine hi (j - index) (by omega) ?_
    rw [mod_add_of_index hindex hlt (by omega), if_pos (by omega)]
    omega
  · by_contra hin
    push Not at hin
    refine hi (first + j) (by omega) ?_
    rw [mod_add_of_index hindex hlt (by omega), if_neg (by omega)]
    omega

theorem Stored.of_segments (hn : 0 < n) (hlen : len ≤ n) (hfirst : first = min len (n - index))
    (h1 : ∀ i < first, cell' (index + i) = value i)
    (h2 : ∀ i < len - first, cell' i = value (first + i))
    (h : ∀ j < n, (j < index ∨ index + first ≤ j) → len - first ≤ j → cell' j = cell j) :
    Stored cell cell' n start len value := by
  have hlt : index < n := hindex ▸ Nat.mod_lt _ hn
  refine ⟨.of_segments hindex hn hlen hfirst h, fun i hi => ?_⟩
  rw [mod_add_of_index hindex hlt (by omega)]
  split_ifs with hin
  · exact h1 i (by omega)
  · rw [show index + i - n = i - first by omega, h2 (i - first) (by omega)]
    congr 1
    omega

/-- What a copy from the buffer reads, first from the cell `index` on and then from the cell 0 on. -/
theorem window_segments (hn : 0 < n) (hlen : len ≤ n) (hfirst : first = min len (n - index)) :
    window cell n start len = ((List.range first).map fun i => cell (index + i))
      ++ (List.range (len - first)).map cell := by
  have hlt : index < n := hindex ▸ Nat.mod_lt _ hn
  obtain ⟨d, hd⟩ : ∃ d, len = first + d := ⟨len - first, by omega⟩
  rw [hd, window_add, Nat.add_sub_cancel_left]
  refine congrArg₂ _ (map_congr_left fun i hi => ?_) (map_congr_left fun i hi => ?_)
  · rw [mem_range] at hi
    rw [mod_add_of_index hindex hlt (by omega), if_pos (by omega)]
  · rw [mem_range] at hi
    rw [Nat.add_assoc, mod_add_of_index hindex hlt (by omega), if_neg (by omega)]
    congr 1
    omega

end

end Astra
