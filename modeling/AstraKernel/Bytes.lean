import Mathlib.Data.BitVec

/-!
# Bytes and words

A memory of bytes, its big-endian words, and a table of words in it.
-/

namespace Astra

open Function

abbrev Memory := ℕ → BitVec 8

def load32 (m : Memory) (a : ℕ) : BitVec 32 := m a ++ m (a + 1) ++ m (a + 2) ++ m (a + 3)

def store32 (m : Memory) (a : ℕ) (v : BitVec 32) : Memory := fun x =>
  if x = a then v.extractLsb' 24 8
  else if x = a + 1 then v.extractLsb' 16 8
  else if x = a + 2 then v.extractLsb' 8 8
  else if x = a + 3 then v.extractLsb' 0 8
  else m x

theorem load32_congr {m m' : Memory} {a : ℕ} (h : ∀ x, a ≤ x → x < a + 4 → m' x = m x) :
    load32 m' a = load32 m a := by
  unfold load32
  rw [h a (by omega) (by omega), h (a + 1) (by omega) (by omega), h (a + 2) (by omega) (by omega),
    h (a + 3) (by omega) (by omega)]

@[simp] theorem load32_store32 (m : Memory) (a : ℕ) (v : BitVec 32) :
    load32 (store32 m a v) a = v := by
  have h : load32 (store32 m a v) a
      = v.extractLsb' 24 8 ++ v.extractLsb' 16 8 ++ v.extractLsb' 8 8 ++ v.extractLsb' 0 8 := by
    simp [load32, store32]
  rw [h]
  apply BitVec.eq_of_getLsbD_eq
  intro i hi
  simp only [BitVec.getLsbD_append, BitVec.getLsbD_extractLsb']
  split_ifs with h1 h2 h3
  · simp [h1]
  · simp [show i - 8 < 8 by omega, show 8 + (i - 8) = i by omega]
  · simp [show i - 8 - 8 < 8 by omega, show 16 + (i - 8 - 8) = i by omega]
  · simp [show i - 8 - 8 - 8 < 8 by omega, show 24 + (i - 8 - 8 - 8) = i by omega]

theorem store32_of_outside {m : Memory} {a x : ℕ} {v : BitVec 32} (h : x < a ∨ a + 4 ≤ x) :
    store32 m a v x = m x := by
  unfold store32
  rw [if_neg (by omega), if_neg (by omega), if_neg (by omega), if_neg (by omega)]

theorem load32_store32_of_disjoint {m : Memory} {a b : ℕ} {v : BitVec 32}
    (h : a + 4 ≤ b ∨ b + 4 ≤ a) : load32 (store32 m a v) b = load32 m b :=
  load32_congr fun _ h1 h2 => store32_of_outside (by omega)

/-- The words of a table. -/
def words (m : Memory) (a : ℕ) : ℕ → BitVec 32 := fun k => load32 m (a + 4 * k)

theorem words_store32 (m : Memory) (a k : ℕ) (v : BitVec 32) :
    words (store32 m (a + 4 * k) v) a = update (words m a) k v := by
  funext j
  rcases eq_or_ne j k with rfl | hne
  · rw [update_self]
    exact load32_store32 ..
  · rw [update_of_ne hne]
    exact load32_store32_of_disjoint (by omega)

end Astra
