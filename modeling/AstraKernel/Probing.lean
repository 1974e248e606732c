import Mathlib.Data.Set.Basic

/-!
# Linear probing

`n` cells in a ring; a key's cells are searched from its home on, until it or a free cell is found.
That finds every key whose way from home to its cell has no free cell (`Findable`). To take a key out,
the cells after it are walked: one whose way crosses the hole is moved into the hole, and leaves its
own. At a free cell the hole is no longer on any way (`Closing.closed`), and it can be freed. Each
step is one cell nearer to a free one, so the walk ends where there is one; where all cells are
taken, it stays so.
-/

namespace Astra

open Function

/-- How far the cell `b` is from the cell `a`, walking up. -/
def gap (n a b : ℕ) : ℕ := if a ≤ b then b - a else n - a + b

/-- The cell after. -/
def after (n i : ℕ) : ℕ := if i + 1 = n then 0 else i + 1

section Ring

variable {n a b c : ℕ}

theorem gap_self (n a : ℕ) : gap n a a = 0 := by simp [gap]

theorem gap_lt (ha : a < n) (hb : b < n) : gap n a b < n := by
  unfold gap
  split_ifs <;> omega

theorem after_lt (ha : a < n) : after n a < n := by
  unfold after
  split_ifs <;> omega

theorem gap_inj (ha : a < n) (hb : b < n) (hc : c < n) (h : gap n a b = gap n a c) : b = c := by
  unfold gap at h
  split_ifs at h <;> omega

theorem gap_after (ha : a < n) (h : gap n a b + 1 < n) :
    gap n a (after n b) = gap n a b + 1 := by
  unfold gap after at *
  split_ifs at * <;> omega

theorem gap_after_self (h : 1 < n) (ha : a < n) : gap n a (after n a) = 1 := by
  rw [gap_after ha (by rw [gap_self]; exact h), gap_self]

/-- One cell less to walk. -/
theorem gap_of_after (ha : a < n) (hb : b < n) (h : a ≠ b) :
    gap n a b = gap n (after n a) b + 1 := by
  unfold gap after
  split_ifs <;> omega

/-- Past a cell on the way, the rest of the walk is at least as long as to what comes first. -/
theorem gap_le_of_le (ha : a < n) (hb : b < n) (hc : c < n) {d : ℕ} (hd : d < n)
    (h : gap n a b ≤ gap n a c) (hle : gap n b d ≤ gap n b c) : gap n a d ≤ gap n a c := by
  unfold gap at *
  split_ifs at * <;> omega

end Ring

section Search

/-- The first of the cells, walking up from `i`, that has the property. -/
def firstFrom (n : ℕ) (p : ℕ → Bool) : ℕ → ℕ → Option ℕ
  | 0, _ => none
  | probes + 1, i => if p i then some i else firstFrom n p probes (after n i)

variable {n : ℕ} {p : ℕ → Bool} {start : ℕ}

theorem firstFrom_some_iff (hs : start < n) : ∀ {probes i : ℕ}, probes ≤ n → i < n →
    (probes ≠ 0 → gap n start i = n - probes) →
    (∀ j < n, gap n start j < n - probes → p j = false) → ∀ {r : ℕ},
    (firstFrom n p probes i = some r ↔
      r < n ∧ p r = true ∧ ∀ j < n, gap n start j < gap n start r → p j = false)
  | 0, i, _, _, _, hbefore, r => by
    simp only [firstFrom, reduceCtorEq, false_iff, not_and]
    intro hr hp
    rw [hbefore r hr (gap_lt hs hr)] at hp
    simp at hp
  | probes + 1, i, hle, hi, hgap, hbefore, r => by
    have hgap := hgap (by omega)
    rw [firstFrom]
    split
    · rename_i hp
      refine ⟨fun h => ?_, fun ⟨hr, hpr, hfirst⟩ => ?_⟩
      · cases h
        exact ⟨hi, hp, fun j hj hlt => hbefore j hj (by omega)⟩
      · rcases Nat.lt_trichotomy (gap n start i) (gap n start r) with hlt | heq | hgt
        · rw [hfirst i hi hlt] at hp
          simp at hp
        · rw [gap_inj hs hi hr heq]
        · rw [hbefore r hr (by omega)] at hpr
          simp at hpr
    · rename_i hp
      refine firstFrom_some_iff hs (by omega) (after_lt hi) (fun h => ?_) fun j hj hlt => ?_
      · rw [gap_after hs (by omega)]
        omega
      · rcases Nat.lt_or_ge (gap n start j) (n - (probes + 1)) with h | h
        · exact hbefore j hj h
        · rw [gap_inj hs hj hi (by omega)]
          simpa using hp

/-- A walk over all cells ends at the nearest one with the property. -/
theorem firstFrom_eq_some (hs : start < n) {r : ℕ} : firstFrom n p n start = some r ↔
    r < n ∧ p r = true ∧ ∀ j < n, gap n start j < gap n start r → p j = false :=
  firstFrom_some_iff hs le_rfl hs (fun _ => by rw [gap_self]; omega) fun j _ h => by omega

end Search

section Table

variable {α κ : Type*} (key : α → Option κ) (home : κ → ℕ) (n : ℕ)

/-- No key is there twice, and none has a free cell between its home and its own cell. -/
structure Findable (cell : ℕ → α) : Prop where
  reach : ∀ i < n, ∀ k, key (cell i) = some k → ∀ p < n,
    gap n (home k) p < gap n (home k) i → key (cell p) ≠ none
  unique : ∀ i < n, ∀ j < n, ∀ k, key (cell i) = some k → key (cell j) = some k → i = j

/-- What is stored outside the hole. -/
def Entries (cell : ℕ → α) (hole : ℕ) : Set α :=
  {a | key a ≠ none ∧ ∃ i < n, i ≠ hole ∧ cell i = a}

/-- The walk has come to `scan`, and no key between the hole and `scan` has the hole on its way. What
is in the hole itself is spent. -/
structure Closing (cell : ℕ → α) (hole scan : ℕ) : Prop where
  hole_lt : hole < n
  scan_lt : scan < n
  ne : scan ≠ hole
  taken : ∀ p < n, gap n hole p < gap n hole scan → key (cell p) ≠ none
  reach : ∀ i < n, i ≠ hole → ∀ k, key (cell i) = some k → ∀ p < n,
    gap n (home k) p < gap n (home k) i → key (cell p) ≠ none
  behind : ∀ i < n, i ≠ hole → ∀ k, key (cell i) = some k →
    gap n (home k) hole < gap n (home k) i → gap n hole scan ≤ gap n hole i
  unique : ∀ i < n, i ≠ hole → ∀ j < n, j ≠ hole → ∀ k,
    key (cell i) = some k → key (cell j) = some k → i = j

variable {key home n} {cell : ℕ → α} {hole scan : ℕ}

namespace Findable

theorem firstFrom (h : Findable key home n cell) (hhome : ∀ k, home k < n) {i : ℕ} {k : κ}
    [DecidableEq κ] (hi : i < n) (hk : key (cell i) = some k) :
    firstFrom n (fun j => decide (key (cell j) = none ∨ key (cell j) = some k)) n (home k) =
      some i := by
  rw [firstFrom_eq_some (hhome k)]
  refine ⟨hi, by simp [hk], fun j hj hlt => ?_⟩
  have hne : key (cell j) ≠ some k := fun hj' => by
    obtain rfl := h.unique i hi j hj k hk hj'
    omega
  simp [h.reach i hi k hk j hj hlt, hne]

/-- A free cell that a search has come to can take the key. -/
theorem insert (h : Findable key home n cell) {i : ℕ} {k : κ} {a : α} (ha : key a = some k)
    (hfree : key (cell i) = none) (hnew : ∀ j < n, key (cell j) ≠ some k)
    (hway : ∀ p < n, gap n (home k) p < gap n (home k) i → key (cell p) ≠ none) :
    Findable key home n (update cell i a) where
  reach j hj k' hk' p hp hlt := by
    rcases eq_or_ne p i with rfl | hpi
    · simp [ha]
    rw [update_of_ne hpi]
    rcases eq_or_ne j i with rfl | hji
    · rw [update_self, ha] at hk'
      cases hk'
      exact hway p hp hlt
    · rw [update_of_ne hji] at hk'
      exact h.reach j hj k' hk' p hp hlt
  unique j hj j' hj' k' hk hk' := by
    rcases eq_or_ne j i with hji | hji <;> rcases eq_or_ne j' i with hji' | hji'
    · exact hji.trans hji'.symm
    · rw [hji, update_self, ha] at hk
      rw [update_of_ne hji', ← hk] at hk'
      exact absurd hk' (hnew j' hj')
    · rw [hji', update_self, ha] at hk'
      rw [update_of_ne hji, ← hk'] at hk
      exact absurd hk (hnew j hj)
    · rw [update_of_ne hji] at hk
      rw [update_of_ne hji'] at hk'
      exact h.unique j hj j' hj' k' hk hk'

/-- Where only what is stored with the keys changes. -/
theorem congr (h : Findable key home n cell) {cell' : ℕ → α}
    (hkey : ∀ i < n, key (cell' i) = key (cell i)) : Findable key home n cell' where
  reach i hi k hk p hp hlt := by
    rw [hkey i hi] at hk
    rw [hkey p hp]
    exact h.reach i hi k hk p hp hlt
  unique i hi j hj k hk hk' := by
    rw [hkey i hi] at hk
    rw [hkey j hj] at hk'
    exact h.unique i hi j hj k hk hk'

/-- The walk starts after the cell whose key is to go. -/
theorem closing (h : Findable key home n cell) (hn : 1 < n)
    (hhole : hole < n) (htaken : key (cell hole) ≠ none) :
    Closing key home n cell hole (after n hole) where
  hole_lt := hhole
  scan_lt := after_lt hhole
  ne := fun h' => by
    have := gap_after_self hn hhole
    rw [h', gap_self] at this
    omega
  taken p hp hlt := by
    rw [gap_after_self hn hhole] at hlt
    rw [gap_inj hhole hp hhole (by rw [gap_self]; omega)]
    exact htaken
  reach i hi _ := h.reach i hi
  behind i hi hne k _ _ := by
    rw [gap_after_self hn hhole]
    by_contra hlt
    exact hne (gap_inj hhole hi hhole (by rw [gap_self]; omega))
  unique i hi _ j hj _ := h.unique i hi j hj

end Findable

namespace Closing

section

variable (h : Closing key home n cell hole scan)
include h

theorem hole_taken : key (cell hole) ≠ none := by
  refine h.taken hole h.hole_lt ?_
  rw [gap_self]
  have : gap n hole scan ≠ gap n hole hole := fun he =>
    h.ne (gap_inj h.hole_lt h.scan_lt h.hole_lt he)
  rw [gap_self] at this
  omega

/-- A free cell lies ahead of the walk. -/
theorem ahead {e : ℕ} (he : e < n)
    (hfree : key (cell e) = none) : gap n hole scan ≤ gap n hole e := by
  by_contra hlt
  exact h.taken e he (by omega) hfree

theorem step_lt (htaken : key (cell scan) ≠ none) {e : ℕ}
    (he : e < n) (hfree : key (cell e) = none) : gap n hole scan + 1 < n := by
  have hle := h.ahead he hfree
  have hne : gap n hole scan ≠ gap n hole e := fun heq => by
    rw [gap_inj h.hole_lt h.scan_lt he heq] at htaken
    exact htaken hfree
  have := gap_lt h.hole_lt he
  omega

/-- A key whose way does not cross the hole stays. -/
theorem pass {k : κ} (hk : key (cell scan) = some k)
    (hstay : ¬gap n (home k) hole < gap n (home k) scan) {e : ℕ} (he : e < n)
    (hfree : key (cell e) = none) : Closing key home n cell hole (after n scan) := by
  have hnext := gap_after h.hole_lt (h.step_lt (by simp [hk]) he hfree)
  exact {
    hole_lt := h.hole_lt
    scan_lt := after_lt h.scan_lt
    ne := fun h' => by
      rw [h', gap_self] at hnext
      omega
    taken := fun p hp hlt => by
      rcases Nat.lt_or_ge (gap n hole p) (gap n hole scan) with hlt' | hge
      · exact h.taken p hp hlt'
      · rw [gap_inj h.hole_lt hp h.scan_lt (by omega), hk]
        simp
    reach := h.reach
    behind := fun i hi hne k' hk' hcross => by
      have hle := h.behind i hi hne k' hk' hcross
      rcases eq_or_ne i scan with rfl | his
      · cases hk'.symm.trans hk
        exact absurd hcross hstay
      · have : gap n hole scan ≠ gap n hole i := fun heq =>
          his (gap_inj h.hole_lt h.scan_lt hi heq).symm
        omega
    unique := h.unique }

/-- A key whose way crosses the hole moves into it. -/
theorem move {k : κ} (hk : key (cell scan) = some k)
    (hcross : gap n (home k) hole < gap n (home k) scan) :
    Closing key home n (update cell hole (cell scan)) scan (after n scan) := by
  have hlt := h.hole_lt
  have hslt := h.scan_lt
  have hn : 1 < n := by
    have := h.ne
    omega
  have hone := gap_after_self hn hslt
  have hkey : ∀ p < n, key (cell p) ≠ none →
      key (update cell hole (cell scan) p) ≠ none := fun p _ hp => by
    rcases eq_or_ne p hole with rfl | hph
    · simp [hk]
    · rwa [update_of_ne hph]
  have hnear : ∀ i < n, i ≠ scan → 1 ≤ gap n scan i := fun i hi his => by
    by_contra hlt
    exact his (gap_inj hslt hi hslt (by rw [gap_self]; omega))
  exact {
    hole_lt := hslt
    scan_lt := after_lt hslt
    ne := fun h' => by
      rw [h', gap_self] at hone
      omega
    taken := fun p hp hlt' => by
      rw [hone] at hlt'
      rw [gap_inj hslt hp hslt (by rw [gap_self]; omega), update_of_ne h.ne, hk]
      simp
    reach := fun i hi his k' hk' p hp hway => by
      refine hkey p hp ?_
      rcases eq_or_ne i hole with rfl | hih
      · rw [update_self, hk] at hk'
        cases hk'
        exact h.reach scan hslt h.ne k hk p hp (by omega)
      · rw [update_of_ne hih] at hk'
        exact h.reach i hi hih k' hk' p hp hway
    behind := fun i hi his k' _ _ => by
      rw [hone]
      exact hnear i hi his
    unique := fun i hi his j hj hjs k' hk' hk'' => by
      rcases eq_or_ne i hole with hih | hih <;> rcases eq_or_ne j hole with hjh | hjh
      · exact hih.trans hjh.symm
      · rw [hih, update_self] at hk'
        rw [update_of_ne hjh] at hk''
        exact absurd (h.unique j hj hjh scan hslt h.ne k' hk'' hk') hjs
      · rw [hjh, update_self] at hk''
        rw [update_of_ne hih] at hk'
        exact absurd (h.unique i hi hih scan hslt h.ne k' hk' hk'') his
      · rw [update_of_ne hih] at hk'
        rw [update_of_ne hjh] at hk''
        exact h.unique i hi hih j hj hjh k' hk' hk'' }

/-- At a free cell, the hole can be freed. -/
theorem closed (hhome : ∀ k, home k < n)
    (hfree : key (cell scan) = none) {a : α} (ha : key a = none) :
    Findable key home n (update cell hole a) where
  reach i hi k hk p hp hlt := by
    rcases eq_or_ne i hole with rfl | hih
    · rw [update_self, ha] at hk
      simp at hk
    rw [update_of_ne hih] at hk
    rcases eq_or_ne p hole with rfl | hph
    · have hle := h.behind i hi hih k hk hlt
      have hway := gap_le_of_le (hhome k) hp hi h.scan_lt hlt.le hle
      refine absurd hfree (h.reach i hi hih k hk scan h.scan_lt ?_)
      have hne : gap n (home k) scan ≠ gap n (home k) i := fun heq => by
        rw [gap_inj (hhome k) h.scan_lt hi heq, hk] at hfree
        simp at hfree
      omega
    · rw [update_of_ne hph]
      exact h.reach i hi hih k hk p hp hlt
  unique i hi j hj k hk hk' := by
    rcases eq_or_ne i hole with rfl | hih
    · rw [update_self, ha] at hk
      simp at hk
    rcases eq_or_ne j hole with rfl | hjh
    · rw [update_self, ha] at hk'
      simp at hk'
    rw [update_of_ne hih] at hk
    rw [update_of_ne hjh] at hk'
    exact h.unique i hi hih j hj hjh k hk hk'

end

end Closing

/-- Moving a cell into the hole keeps what is stored. -/
theorem entries_move (hhole : hole < n) (hscan : scan < n) (hne : scan ≠ hole) :
    Entries key n (update cell hole (cell scan)) scan = Entries key n cell hole := by
  ext a
  refine and_congr_right fun _ => ⟨fun ⟨i, hi, his, hia⟩ => ?_, fun ⟨i, hi, hih, hia⟩ => ?_⟩
  · rcases eq_or_ne i hole with rfl | hih
    · rw [update_self] at hia
      exact ⟨scan, hscan, hne, hia⟩
    · rw [update_of_ne hih] at hia
      exact ⟨i, hi, hih, hia⟩
  · rcases eq_or_ne i scan with rfl | his
    · exact ⟨hole, hhole, hne.symm, by rw [update_self, hia]⟩
    · exact ⟨i, hi, his, by rw [update_of_ne hih, hia]⟩

/-- Freeing the hole keeps what is stored outside it. -/
theorem entries_free {a : α} (ha : key a = none) :
    Entries key n (update cell hole a) n = Entries key n cell hole := by
  ext b
  refine and_congr_right fun hb => ⟨fun ⟨i, hi, _, hib⟩ => ?_, fun ⟨i, hi, hih, hib⟩ => ?_⟩
  · rcases eq_or_ne i hole with rfl | hih
    · rw [update_self] at hib
      rw [← hib] at hb
      exact absurd ha hb
    · rw [update_of_ne hih] at hib
      exact ⟨i, hi, hih, hib⟩
  · exact ⟨i, hi, by omega, by rw [update_of_ne hih, hib]⟩

end Table

end Astra
