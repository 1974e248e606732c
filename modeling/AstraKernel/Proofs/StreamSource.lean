import AstraKernel.Circular
import AstraKernel.Streams.Source

/-!
# The circular buffer of a stream source

What a source holds is a window of its buffer, and each operation is an operation on that list.
-/

namespace Astra

open List

/-! ## Copies -/

section Copy

variable {α : Type*} {cell value : ℕ → α} {start count j n p len : ℕ}

theorem copyBytes_of_mem (h : j < count) : copyBytes cell start value count (start + j) = value j := by
  rw [copyBytes, if_pos ⟨by omega, by omega⟩, Nat.add_sub_cancel_left]

theorem copyBytes_of_not_mem (h : j < start ∨ start + count ≤ j) :
    copyBytes cell start value count j = cell j := if_neg (by omega)

theorem stored_copyBytes {index first : ℕ} (hindex : p % n = index) (hn : 0 < n) (hlen : len ≤ n)
    (hfirst : first = min len (n - index)) :
    Stored cell (copyBytes (copyBytes cell index value first) 0 (fun i => value (first + i))
      (len - first)) n p len value := by
  have hlt : index < n := hindex ▸ Nat.mod_lt _ hn
  refine .of_segments hindex hn hlen hfirst (fun i hi => ?_) (fun i hi => ?_) fun j hj h1 h2 => ?_
  · rw [copyBytes_of_not_mem (by omega), copyBytes_of_mem hi]
  · rw [← Nat.zero_add i, copyBytes_of_mem hi, Nat.zero_add]
  · rw [copyBytes_of_not_mem (by omega), copyBytes_of_not_mem (by omega)]

end Copy

namespace AstraStreamSource

variable {s : AstraStreamSource} {tty : AstraTtyState}

/-- What is in the buffer, in the order in which it came. -/
def contents (s : AstraStreamSource) : List UInt8 := window s.buffer s.capacity s.head s.length

structure Bounded (s : AstraStreamSource) : Prop where
  pos : 0 < s.capacity
  small : s.capacity ≤ 2 ^ 31
  head : s.head < s.capacity
  committed : s.committed ≤ s.length
  length : s.length ≤ s.capacity

@[simp] theorem length_contents (s : AstraStreamSource) : s.contents.length = s.length :=
  window_length ..

section

variable (h : s.Bounded)
include h

theorem tail_eq : (s.head + s.length) % 2 ^ 32 % s.capacity = (s.head + s.length) % s.capacity := by
  have := h.small
  have := h.head
  have := h.length
  rw [Nat.mod_eq_of_lt (a := s.head + s.length) (by omega)]

theorem window_store {cell' : ℕ → UInt8} {value : ℕ → UInt8} {k : ℕ}
    (hk : s.length + k ≤ s.capacity)
    (hs : Stored s.buffer cell' s.capacity (s.head + s.length) k value) :
    window cell' s.capacity s.head (s.length + k) =
      s.contents ++ (List.range k).map value := by
  rw [window_add, hs.window, hs.kept.window h.pos le_rfl (by omega), contents]

theorem contents_offer (bytes : List UInt8) :
    (s.offer bytes).1.contents = s.contents ++ bytes.take (s.offer bytes).2 ∧
      (s.offer bytes).2 = min bytes.length (s.capacity - s.length) := by
  unfold offer
  by_cases hnil : bytes = []
  · subst hnil
    simp
  rw [if_neg hnil]
  dsimp only
  generalize htake : min bytes.length (s.capacity - s.length) = take
  have hlen := h.length
  have hcontents : window (copyBytes (copyBytes s.buffer ((s.head + s.length) % 2 ^ 32 % s.capacity)
      (fun i => bytes.getD i 0) (min take (s.capacity - (s.head + s.length) % 2 ^ 32 % s.capacity)))
      0 (fun i => bytes.getD (min take (s.capacity - (s.head + s.length) % 2 ^ 32 % s.capacity) + i)
        0) (take - min take (s.capacity - (s.head + s.length) % 2 ^ 32 % s.capacity)))
      s.capacity s.head (s.length + take) = s.contents ++ bytes.take take := by
    rw [tail_eq h, window_store h (by omega) (stored_copyBytes rfl h.pos (by omega) rfl)]
    congr 1
    refine ext_getElem (by simp; omega) fun i h1 h2 => ?_
    simp only [length_map, length_range] at h1
    rw [getElem_map, getElem_range, getElem_take]
    have hi : i < bytes.length := by omega
    simp [hi]
  refine ⟨?_, rfl⟩
  split_ifs <;> exact hcontents

theorem contents_store (hroom : s.length ≠ s.capacity) (value : UInt8) :
    window (copyBytes s.buffer ((s.head + s.length) % 2 ^ 32 % s.capacity) (fun _ => value) 1)
      s.capacity s.head (s.length + 1) = s.contents ++ [value] := by
  have hlen := h.length
  have hstored : Stored s.buffer
      (copyBytes (copyBytes s.buffer ((s.head + s.length) % s.capacity) (fun _ => value)
        (min 1 (s.capacity - (s.head + s.length) % s.capacity))) 0 (fun _ => value)
        (1 - min 1 (s.capacity - (s.head + s.length) % s.capacity)))
      s.capacity (s.head + s.length) 1 fun _ => value :=
    stored_copyBytes rfl h.pos (by omega) rfl
  have hone : min 1 (s.capacity - (s.head + s.length) % s.capacity) = 1 := by
    have := Nat.mod_lt (s.head + s.length) h.pos
    omega
  rw [hone, Nat.sub_self] at hstored
  have hsame : copyBytes (copyBytes s.buffer ((s.head + s.length) % s.capacity)
      (fun _ => value) 1) 0 (fun _ => value) 0 =
      copyBytes s.buffer ((s.head + s.length) % s.capacity) (fun _ => value) 1 :=
    funext fun j => copyBytes_of_not_mem (by omega)
  rw [hsame] at hstored
  rw [tail_eq h, window_store h (by omega) hstored]
  rfl

theorem bytes_readReply (capacity : ℕ) : (s.readReply capacity).bytes =
      s.contents.take (min (min capacity s.committed) astraStreamWriteMax) := by
  have hcommitted := h.committed
  have hlen := h.length
  rw [contents, window_take (by omega)]
  exact (window_segments (Nat.mod_eq_of_lt h.head) h.pos (by omega) rfl).symm

theorem contents_spend (capacity : ℕ) : (s.spend capacity).contents =
      s.contents.drop (min (min capacity s.committed) astraStreamWriteMax) := by
  have hcommitted := h.committed
  have hlen := h.length
  have hhead := h.head
  have hsmall := h.small
  generalize hgive : min (min capacity s.committed) astraStreamWriteMax = give
  have hwindow : window s.buffer s.capacity ((s.head + give) % 2 ^ 32 % s.capacity)
      (s.length - give) = s.contents.drop give := by
    rw [contents, window_drop (by omega), Nat.mod_eq_of_lt (a := s.head + give) (by omega)]
    exact window_start (Nat.mod_mod ..)
  unfold spend
  dsimp only
  rw [hgive]
  split_ifs <;> exact hwindow

theorem contents_rebindStorage (storage : ℕ → UInt8) (capacity : ℕ) :
    (s.rebindStorage storage capacity).1.contents = s.contents := by
  have hlen := h.length
  have hhead := h.head
  unfold rebindStorage
  split_ifs with hbad
  · rfl
  have hfit : s.length ≤ capacity := by omega
  rw [contents, contents]
  dsimp only
  refine ext_getElem (by simp) fun i h1 h2 => ?_
  rw [window_length] at h1
  simp only [window, getElem_map, getElem_range, Nat.zero_add]
  rw [Nat.mod_eq_of_lt (a := i) (by omega), mod_add_of_index (Nat.mod_eq_of_lt hhead) hhead (by omega)]
  by_cases hi : i < min s.length (s.capacity - s.head)
  · rw [copyBytes_of_not_mem (by omega), ← Nat.zero_add i, copyBytes_of_mem hi, Nat.zero_add,
      if_pos (by omega)]
  · obtain ⟨d, rfl⟩ := Nat.exists_eq_add_of_le (not_lt.mp hi)
    rw [copyBytes_of_mem (by omega), if_neg (by omega)]
    congr 1
    omega

end

end AstraStreamSource

end Astra
