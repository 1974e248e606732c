import Mathlib.Data.BitVec
import Mathlib.Tactic

/-!
# Bitmaps over 32-bit words

Setting and clearing a bit of a table of words, read back bit by bit, and how the number of bits
set below a bound changes.
-/

namespace Astra

open Function

def bitTest (w : ℕ → BitVec 32) (i : ℕ) : Bool := (w (i / 32)).getLsbD (i % 32)

def bitSet (w : ℕ → BitVec 32) (i : ℕ) : ℕ → BitVec 32 :=
  Function.update w (i / 32) (w (i / 32) ||| 1#32 <<< (i % 32))

def bitClear (w : ℕ → BitVec 32) (i : ℕ) : ℕ → BitVec 32 :=
  Function.update w (i / 32) (w (i / 32) &&& ~~~(1#32 <<< (i % 32)))

theorem getLsbD_one_shiftLeft {i j : ℕ} (hi : i < 32) (hj : j < 32) :
    (1#32 <<< i).getLsbD j = decide (j = i) := by
  rw [BitVec.getLsbD_shiftLeft, BitVec.getLsbD_one]
  by_cases h : j = i
  · simp [h, hi]
  · have : ¬(¬j < i ∧ j - i = 0) := by omega
    simp only [h, hj, decide_true, Bool.true_and, decide_false]
    rcases Nat.lt_or_ge j i with hlt | hge
    · simp [hlt]
    · have h0 : j - i ≠ 0 := by omega
      simp [h0]

/-- The mask test of a bit. -/
theorem and_one_shiftLeft_ne_zero {w : BitVec 32} {i : ℕ} (hi : i < 32) :
    w &&& 1#32 <<< i ≠ 0 ↔ w.getLsbD i = true := by
  constructor
  · intro h
    by_contra hw
    apply h
    apply BitVec.eq_of_getLsbD_eq
    intro j hj
    rw [BitVec.getLsbD_and, getLsbD_one_shiftLeft hi hj]
    by_cases hji : j = i
    · simpa [hji] using hw
    · simp [hji]
  · intro hw h
    have := congrArg (fun v => BitVec.getLsbD v i) h
    simp [getLsbD_one_shiftLeft hi hi, hw] at this

theorem index_eq {i j : ℕ} (h1 : i / 32 = j / 32) (h2 : i % 32 = j % 32) : i = j := by
  omega

variable (w : ℕ → BitVec 32)

theorem bitTest_bitSet (i j : ℕ) : bitTest (bitSet w i) j = (decide (j = i) || bitTest w j) := by
  have hi : i % 32 < 32 := Nat.mod_lt _ (by decide)
  have hj : j % 32 < 32 := Nat.mod_lt _ (by decide)
  unfold bitTest bitSet
  rcases eq_or_ne (j / 32) (i / 32) with hw | hw
  · rw [hw, update_self, BitVec.getLsbD_or, getLsbD_one_shiftLeft hi hj, Bool.or_comm]
    congr 1
    rw [decide_eq_decide]
    exact ⟨fun h => index_eq hw h, fun h => by rw [h]⟩
  · rw [update_of_ne hw]
    have : j ≠ i := fun h => hw (by rw [h])
    simp [this]

theorem bitTest_bitClear (i j : ℕ) :
    bitTest (bitClear w i) j = (!decide (j = i) && bitTest w j) := by
  have hi : i % 32 < 32 := Nat.mod_lt _ (by decide)
  have hj : j % 32 < 32 := Nat.mod_lt _ (by decide)
  unfold bitTest bitClear
  rcases eq_or_ne (j / 32) (i / 32) with hw | hw
  · rw [hw, update_self, BitVec.getLsbD_and, BitVec.getLsbD_not,
      getLsbD_one_shiftLeft hi hj, Bool.and_comm]
    congr 1
    have : (j % 32 = i % 32) ↔ j = i := ⟨fun h => index_eq hw h, fun h => by rw [h]⟩
    simp [hj, this]
  · rw [update_of_ne hw]
    have : j ≠ i := fun h => hw (by rw [h])
    simp [this]

/-- A mask that takes the rest by a power of two. -/
theorem and_sub_one_eq_mod {n : ℕ} (hn : n ≠ 0) (h : n &&& (n - 1) = 0) (m : ℕ) :
    m &&& (n - 1) = m % n := by
  have hlow : 2 ^ n.log2 ≤ n := Nat.log2_self_le hn
  have hhigh : n < 2 ^ (n.log2 + 1) := Nat.lt_log2_self
  rw [Nat.pow_succ] at hhigh
  have hn' : n = 2 ^ n.log2 := by
    by_contra hne
    have hbit : ∀ x, 2 ^ n.log2 ≤ x → x < 2 ^ n.log2 * 2 → x.testBit n.log2 = true := by
      intro x hx hx'
      have : x / 2 ^ n.log2 = 1 := Nat.div_eq_of_lt_le (by omega) (by omega)
      rw [Nat.testBit_eq_decide_div_mod_eq, this]
      rfl
    have := congrArg (fun x => x.testBit n.log2) h
    simp only [Nat.testBit_and, Nat.zero_testBit] at this
    rw [hbit n hlow hhigh, hbit (n - 1) (by omega) (by omega)] at this
    simp at this
  rw [hn', Nat.and_two_pow_sub_one_eq_mod]

end Astra
