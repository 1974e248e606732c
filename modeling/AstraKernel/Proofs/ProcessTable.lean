import AstraKernel.Posix.ProcessTable
import Mathlib.Tactic.Ring

/-!
# The POSIX process table

Growing the block keeps both arrays (`grow_spec`), and so a call that fails changes nothing but the
capacity. What the calls keep is said of the slots (`PosixProcessTable.Consistent`).
-/

namespace Astra

open List

/-! ## The block -/

section Block

variable {α : Type*} {words : α → List UInt32} {ofWords : List UInt32 → α} {k : ℕ}

theorem length_flatMap_words (hk : ∀ a, (words a).length = k) :
    ∀ l : List α, (l.flatMap words).length = k * l.length
  | [] => rfl
  | a :: l => by
    rw [flatMap_cons, length_append, hk, length_flatMap_words hk l, length_cons]
    ring_nf

theorem drop_flatMap_words (hk : ∀ a, (words a).length = k) (rest : List UInt32) :
    ∀ (l : List α) (i : ℕ), i ≤ l.length →
      (l.flatMap words ++ rest).drop (k * i) = (l.drop i).flatMap words ++ rest
  | l, 0, _ => by simp
  | [], i + 1, h => by simp at h
  | a :: l, i + 1, h => by
    rw [flatMap_cons, append_assoc, show k * (i + 1) = (words a).length + k * i by
      rw [hk]; ring, ← drop_drop, drop_left,
      drop_flatMap_words hk rest l i (Nat.le_of_succ_le_succ h), drop_succ_cons]

theorem read_flatMap_words (hk : ∀ a, (words a).length = k) (hof : ∀ a, ofWords (words a) = a)
    (l : List α) (rest : List UInt32) :
    ((List.range l.length).map fun i =>
      ofWords (((l.flatMap words ++ rest).drop (k * i)).take k)) = l := by
  refine ext_getElem (by simp) fun i h1 h2 => ?_
  rw [getElem_map, getElem_range, drop_flatMap_words hk rest l i h2.le,
    drop_eq_getElem_cons h2, flatMap_cons, append_assoc,
    take_left' (hk _), hof]

end Block

variable (s : PosixSessionEntry) (e : PosixProcessEntry)

theorem PosixProcessEntry.ofWords_words : .ofWords e.words = e := by
  simp [PosixProcessEntry.ofWords, PosixProcessEntry.words]

theorem PosixSessionEntry.ofWords_words : .ofWords s.words = s := by
  obtain ⟨session, foreground, terminal⟩ := s
  have hbyte : (0x1000000 : UInt32) >>> 24 ≠ 0 := by decide
  cases terminal <;> simp [PosixSessionEntry.ofWords, PosixSessionEntry.words, hbyte]

theorem PosixProcessEntry.length_words : e.words.length = processWords :=
  rfl

theorem PosixSessionEntry.length_words : s.words.length = sessionWords :=
  rfl

namespace PosixProcessTable

variable {t t' : PosixProcessTable} {reallocate : Reallocate}

section

variable (t)

theorem length_sessions : t.sessions.length = t.capacity := t.same

theorem ofStorage_storage : ofStorage t.capacity t.storage = t := by
  have hentries : (ofStorage t.capacity t.storage).entries = t.entries :=
    read_flatMap_words PosixProcessEntry.length_words PosixProcessEntry.ofWords_words _ _
  have hsessions : (ofStorage t.capacity t.storage).sessions = t.sessions := by
    have hskip : t.storage.drop (processWords * t.capacity) = t.sessions.flatMap (·.words) := by
      have := drop_flatMap_words PosixProcessEntry.length_words
        (t.sessions.flatMap (·.words)) t.entries t.entries.length le_rfl
      rw [drop_length] at this
      exact this
    have hread := read_flatMap_words PosixSessionEntry.length_words
      PosixSessionEntry.ofWords_words t.sessions []
    simp only [append_nil, t.same] at hread
    simp only [ofStorage, ← drop_drop, hskip]
    exact hread
  obtain ⟨entries, sessions, same⟩ := t
  simp only [ofStorage, PosixProcessTable.mk.injEq] at *
  exact ⟨hentries, hsessions⟩

/-- The table with so many free slots behind it. -/
def extend (t : PosixProcessTable) (k : ℕ) : PosixProcessTable where
  entries := t.entries ++ List.replicate k .zero
  sessions := t.sessions ++ List.replicate k .zero
  same := by simp [t.same]

theorem length_storage_entries : (t.entries.flatMap (·.words)).length = processWords * t.capacity :=
  length_flatMap_words PosixProcessEntry.length_words _

theorem length_storage_sessions :
    (t.sessions.flatMap (·.words)).length = sessionWords * t.capacity := by
  rw [length_flatMap_words PosixSessionEntry.length_words, length_sessions]

end

theorem flatMap_replicate_zero {α : Type*} {words : α → List UInt32} {a : α} {k : ℕ}
    (ha : words a = List.replicate k 0) :
    ∀ m : ℕ, (List.replicate m a).flatMap words = List.replicate (k * m) 0
  | 0 => rfl
  | m + 1 => by
    rw [replicate_succ, flatMap_cons, ha, flatMap_replicate_zero ha m,
      replicate_append_replicate]
    congr 1
    ring

theorem move_and_zero {b d : ℕ} (E S F : List UInt32) (hF : F.length = b + d) :
    zeroWords (zeroWords (moveWords (E ++ (S ++ F)) (E.length + b) E.length S.length)
      E.length b) (E.length + b + S.length) d =
        (E ++ List.replicate b 0) ++ (S ++ List.replicate d 0) := by
  have hX : ((S ++ F).take b).length = b := by
    rw [length_take, length_append]
    omega
  have hY : ((S ++ F).drop (b + S.length)).length = d := by
    rw [length_drop, length_append]
    omega
  have hmove : moveWords (E ++ (S ++ F)) (E.length + b) E.length S.length =
      E ++ ((S ++ F).take b ++ (S ++ (S ++ F).drop (b + S.length))) := by
    rw [moveWords, take_length_add_append, drop_left, take_left, add_assoc,
      drop_length_add_append, append_assoc, append_assoc]
  generalize (S ++ F).take b = X at hX hmove
  generalize (S ++ F).drop (b + S.length) = Y at hY hmove
  have hzero : zeroWords (E ++ (X ++ (S ++ Y))) E.length b =
      (E ++ (List.replicate b 0 ++ S)) ++ Y := by
    rw [zeroWords, take_left, drop_length_add_append, drop_left' hX]
    simp only [append_assoc]
  have hlen : E.length + b + S.length = (E ++ (List.replicate b (0 : UInt32) ++ S)).length := by
    simp only [length_append, length_replicate]
    omega
  rw [hmove, hzero, hlen, zeroWords, take_left, drop_length_add_append,
    drop_of_length_le hY.le]
  simp only [append_assoc, append_nil]

theorem storage_extend (t : PosixProcessTable) (k : ℕ) (fresh : List UInt32)
    (hfresh : fresh.length = (processWords + sessionWords) * k) :
    zeroWords (zeroWords (moveWords (t.storage ++ fresh) (processWords * (t.capacity + k))
        (processWords * t.capacity) (sessionWords * t.capacity))
      (processWords * t.capacity) (processWords * k))
      (processWords * (t.capacity + k) + sessionWords * t.capacity) (sessionWords * k) =
    (t.extend k).storage := by
  have hF : fresh.length = processWords * k + sessionWords * k := by rw [hfresh, add_mul]
  have hmoved := move_and_zero (t.entries.flatMap (·.words)) (t.sessions.flatMap (·.words)) fresh hF
  rw [length_storage_entries, length_storage_sessions, ← mul_add] at hmoved
  have hentry : PosixProcessEntry.zero.words = List.replicate processWords 0 := rfl
  have hsession : PosixSessionEntry.zero.words = List.replicate sessionWords 0 := rfl
  rw [storage, append_assoc, hmoved, storage, extend, flatMap_append, flatMap_append,
    flatMap_replicate_zero hentry, flatMap_replicate_zero hsession]

theorem grow_spec (h : t.grow reallocate = some t') : ∃ k, 0 < k ∧ t' = t.extend k := by
  unfold grow at h
  dsimp only at h
  generalize hc : (if t.capacity = 0 then posixProcessTableInitial else t.capacity * 2 % 2 ^ 32) =
    capacity at h
  split at h
  · cases h
  split_ifs at h with hbytes
  split at h
  · cases h
  cases h
  have hpos : t.capacity < capacity := by
    split at hc
    · have : 0 < posixProcessTableInitial := by decide
      omega
    · omega
  refine ⟨capacity - t.capacity, by omega, ?_⟩
  have hsum : t.capacity + (capacity - t.capacity) = capacity := by omega
  have hstorage := storage_extend t (capacity - t.capacity)
    ((List.range ((processWords + sessionWords) * (capacity - t.capacity))).map ‹ℕ → UInt32›)
    (by simp)
  rw [hsum] at hstorage
  rw [hstorage]
  have hcap : (t.extend (capacity - t.capacity)).capacity = capacity := by
    simp only [extend, PosixProcessTable.capacity, length_append, length_replicate]
    exact hsum
  have hread := ofStorage_storage (t.extend (capacity - t.capacity))
  rwa [hcap] at hread

end PosixProcessTable

end Astra
