import AstraKernel.Bytes
import AstraKernel.Heaps
import Mathlib.Logic.Equiv.Basic
import Mathlib.Algebra.Group.End
import Mathlib.Order.Antisymmetrization
import Mathlib.Order.WithBot

/-!
# The runtime's `qsort`

`sort.c`: a heapsort over untyped bytes, the greatest element at the root. A `size_t` has 32 bits,
and an array of a process lies in the user half of the address space, so that no index of a child
leaves them. The elements from `lo` on are a heap before those below it are.
-/

namespace Astra

abbrev astraUserAddressEnd : ℕ := 0x80000000

/-- What a comparison function says of two elements; it sees their bytes. -/
abbrev Compare := List (BitVec 8) → List (BitVec 8) → ℤ

structure TotalPreorder {α : Type} (compare : α → α → ℤ) : Prop where
  total : ∀ a b, compare a b ≤ 0 ∨ compare b a ≤ 0
  trans : ∀ a b c, compare a b ≤ 0 → compare b c ≤ 0 → compare a c ≤ 0

/-- `base + index * size`. -/
def elementPointer (base size index : ℕ) : ℕ := (base + index * size % 2 ^ 32) % 2 ^ 32

def bytesAt (m : Memory) (pointer size : ℕ) : List (BitVec 8) :=
  (List.range size).map fun k => m (pointer + k)

def swapBytes (m : Memory) (left right : ℕ) : ℕ → Memory
  | 0 => m
  | size + 1 => swapBytes (swapCells m left right) (left + 1) (right + 1) size

section Source

variable (compare : Compare) (base size : ℕ)

def greater (m : Memory) (i j : ℕ) : Prop :=
  compare (bytesAt m (elementPointer base size i) size)
    (bytesAt m (elementPointer base size j) size) > 0

instance (m : Memory) (i j : ℕ) : Decidable (greater compare base size m i j) :=
  inferInstanceAs (Decidable (_ > _))

/-- The `largest` of `root` and its children, the first of which is `child`. -/
def siftLargest (m : Memory) (root child count : ℕ) : ℕ :=
  let largest := if greater compare base size m child root then child else root
  if (child + 1) % 2 ^ 32 < count ∧ greater compare base size m ((child + 1) % 2 ^ 32) largest then
    (child + 1) % 2 ^ 32
  else largest

/-- The passes of the loop are counted by the fuel. -/
def siftElement : ℕ → Memory → ℕ → ℕ → Option Memory
  | 0, _, _, _ => none
  | fuel + 1, m, root, count =>
    let child := (2 * root + 1) % 2 ^ 32
    if child ≥ count then some m
    else
      let largest := siftLargest compare base size m root child count
      if largest = root then some m
      else siftElement fuel (swapBytes m (elementPointer base size root)
        (elementPointer base size largest) size) largest count

variable (fuel count : ℕ)

/-- Build the max-heap from the last parent downwards. -/
def buildHeap : ℕ → Memory → Option Memory
  | 0, m => some m
  | index + 1, m => do
    let m ← siftElement compare base size fuel m index count
    buildHeap index m

/-- Repeatedly move the largest element to the end of the live region. -/
def extractAll : ℕ → Memory → Option Memory
  | 0, m => some m
  | 1, m => some m
  | index + 2, m => do
    let m ← siftElement compare base size fuel
      (swapBytes m base (elementPointer base size (index + 1)) size) 0 (index + 1)
    extractAll (index + 1) m

end Source

def qsort (fuel : ℕ) (m : Memory) (array count size : ℕ) (compare : Option Compare) :
    Option Memory :=
  match compare with
  | none => some m
  | some compare =>
    if array = 0 ∨ size = 0 ∨ count < 2 then some m
    else do
      let m ← buildHeap compare array size fuel count (count / 2) m
      extractAll compare array size fuel count m

/-- The element of an array in its memory. -/
def element (base size : ℕ) (m : Memory) (i : ℕ) : List (BitVec 8) := bytesAt m (base + i * size) size

/-- The first `n` of `cell'` are the first `n` of `cell`, in some order, and the others are the
same. -/
def Permuted {κ : Type} (n : ℕ) (cell cell' : ℕ → κ) : Prop :=
  ∃ σ : Equiv.Perm ℕ, (∀ i, n ≤ i → σ i = i) ∧ ∀ i, cell' i = cell (σ i)

namespace Permuted

variable {κ : Type} {n n' i j : ℕ} {cell cell' cell'' : ℕ → κ}

theorem refl (n : ℕ) (cell : ℕ → κ) : Permuted n cell cell := ⟨1, fun _ _ => rfl, fun _ => rfl⟩

theorem trans (h : Permuted n cell cell') (h' : Permuted n cell' cell'') :
    Permuted n cell cell'' := by
  obtain ⟨σ, hσ, hcell⟩ := h
  obtain ⟨τ, hτ, hcell'⟩ := h'
  refine ⟨σ * τ, fun i hi => ?_, fun i => ?_⟩
  · rw [Equiv.Perm.mul_apply, hτ i hi, hσ i hi]
  · rw [hcell', hcell, Equiv.Perm.mul_apply]

theorem mono (h : Permuted n cell cell') (hn : n ≤ n') : Permuted n' cell cell' := by
  obtain ⟨σ, hσ, hcell⟩ := h
  exact ⟨σ, fun i hi => hσ i (hn.trans hi), hcell⟩

theorem swap (hi : i < n) (hj : j < n) : Permuted n cell (swapCells cell i j) := by
  refine ⟨Equiv.swap i j, fun k hk => Equiv.swap_apply_of_ne_of_ne (by omega) (by omega),
    fun k => ?_⟩
  rw [swapCells, Equiv.swap_apply_def]
  split_ifs <;> rfl

/-- Each of the first is one of the first. -/
theorem from_lt (h : Permuted n cell cell') (i : ℕ) :
    ∃ j, cell' i = cell j ∧ (i < n → j < n) ∧ (n ≤ i → j = i) := by
  obtain ⟨σ, hσ, hcell⟩ := h
  refine ⟨σ i, hcell i, fun hi => ?_, hσ i⟩
  by_contra hn
  have := σ.injective (hσ _ (not_lt.1 hn))
  omega

end Permuted

/-! ## The bytes of two elements change places -/

theorem swapBytes_apply : ∀ (n : ℕ) (m : Memory) (l r a : ℕ), l + n ≤ r ∨ r + n ≤ l →
    swapBytes m l r n a = if l ≤ a ∧ a < l + n then m (r + (a - l))
      else if r ≤ a ∧ a < r + n then m (l + (a - r)) else m a
  | 0, m, l, r, a, _ => by
    rw [if_neg (by omega), if_neg (by omega)]
    rfl
  | n + 1, m, l, r, a, h => by
    rw [swapBytes, swapBytes_apply n _ _ _ _ (by omega)]
    rcases eq_or_ne a l with rfl | hl
    · rw [if_neg (by omega), if_neg (by omega), if_pos (by omega), swapCells_left, Nat.sub_self,
        Nat.add_zero]
    rcases eq_or_ne a r with rfl | hr
    · rw [if_neg (by omega), if_neg (by omega), if_neg (by omega), if_pos (by omega),
        swapCells_right hl, Nat.sub_self, Nat.add_zero]
    rw [swapCells_of_ne hl hr]
    by_cases hin : l ≤ a ∧ a < l + (n + 1)
    · rw [if_pos (by omega), if_pos hin, swapCells_of_ne (by omega) (by omega)]
      congr 1
      omega
    rw [if_neg (by omega), if_neg hin]
    by_cases hin' : r ≤ a ∧ a < r + (n + 1)
    · rw [if_pos (by omega), if_pos hin', swapCells_of_ne (by omega) (by omega)]
      congr 1
      omega
    · rw [if_neg (by omega), if_neg hin']

theorem element_apart (size : ℕ) {i j : ℕ} (h : i < j) : i * size + size ≤ j * size := by
  rw [← Nat.succ_mul]
  exact Nat.mul_le_mul_right _ h

theorem swapBytes_element (m : Memory) (base size : ℕ) {i j : ℕ} (hne : i ≠ j) :
    element base size (swapBytes m (base + i * size) (base + j * size) size)
      = swapCells (element base size m) i j := by
  have hapart : i * size + size ≤ j * size ∨ j * size + size ≤ i * size :=
    (Nat.lt_or_gt_of_ne hne).imp (element_apart size) (element_apart size)
  funext k
  refine Eq.trans (List.map_congr_left fun b hb => ?_)
    (b := bytesAt m (base + (if k = i then j else if k = j then i else k) * size) size) ?_
  · have hb := List.mem_range.1 hb
    rw [swapBytes_apply _ _ _ _ _ (by omega)]
    rcases eq_or_ne k i with rfl | hi
    · rw [if_pos (by omega), if_pos rfl]
      congr 1
      omega
    have := (Nat.lt_or_gt_of_ne hi).imp (element_apart size) (element_apart size)
    rw [if_neg (by omega), if_neg hi]
    rcases eq_or_ne k j with rfl | hj
    · rw [if_pos (by omega), if_pos rfl]
      congr 1
      omega
    have := (Nat.lt_or_gt_of_ne hj).imp (element_apart size) (element_apart size)
    rw [if_neg (by omega), if_neg hj]
  · unfold swapCells element
    split_ifs <;> rfl


/-! ## Sifting -/

section Sift

variable {κ : Type} [LinearOrder κ] {compare : Compare} {rank : List (BitVec 8) → κ}
  {base size count lo n : ℕ} {m m' : Memory}

/-- The order of the elements, the greatest first; those below `lo` are greater than all others. -/
def sortKey (rank : List (BitVec 8) → κ) (lo : ℕ) (el : ℕ → List (BitVec 8)) (i : ℕ) :
    (WithTop κ)ᵒᵈ :=
  OrderDual.toDual (if i < lo then ⊤ else (rank (el i) : WithTop κ))

variable (hrank : ∀ a b, compare a b > 0 ↔ rank b < rank a) (hsize : 0 < size)
  (huser : base + count * size ≤ astraUserAddressEnd)

include huser in
theorem elementPointer_eq {i : ℕ} (hi : i < count) : elementPointer base size i = base + i * size := by
  have := Nat.mul_le_mul_right size hi.le
  simp only [astraUserAddressEnd] at huser
  rw [elementPointer, Nat.mod_eq_of_lt (by omega), Nat.mod_eq_of_lt (by omega)]

include hsize huser in
theorem count_le : count ≤ 2 ^ 31 := by
  have := Nat.le_mul_of_pos_right count hsize
  simp only [astraUserAddressEnd] at huser
  omega

include hrank huser in
theorem greater_iff {i j : ℕ} (hi : i < count) (hj : j < count) (hli : lo ≤ i) (hlj : lo ≤ j) :
    greater compare base size m i j ↔
      sortKey rank lo (element base size m) i < sortKey rank lo (element base size m) j := by
  rw [greater, elementPointer_eq huser hi, elementPointer_eq huser hj, hrank, sortKey, sortKey,
    if_neg (by omega), if_neg (by omega), OrderDual.toDual_lt_toDual, WithTop.coe_lt_coe]
  rfl

omit [LinearOrder κ] in
theorem sortKey_swap {el : ℕ → List (BitVec 8)} {i j : ℕ} (hi : lo ≤ i) (hj : lo ≤ j) :
    sortKey rank lo (swapCells el i j) = swapCells (sortKey rank lo el) i j := by
  funext k
  rcases eq_or_ne k i with rfl | hi'
  · rw [swapCells_left, sortKey, sortKey, swapCells_left, if_neg (by omega), if_neg (by omega)]
  rcases eq_or_ne k j with rfl | hj'
  · rw [swapCells_right hi', sortKey, sortKey, swapCells_right hi', if_neg (by omega),
      if_neg (by omega)]
  · rw [swapCells_of_ne hi' hj', sortKey, sortKey, swapCells_of_ne hi' hj']

include hrank hsize huser in
/-- The child that the root changes places with, if any, and nothing below the root is greater. -/
theorem siftLargest_spec {root : ℕ} (hn : n ≤ count) (hlo : lo ≤ root) (hchild : 2 * root + 1 < n) :
    let c := siftLargest compare base size m root (2 * root + 1) n
    let cell := sortKey rank lo (element base size m)
    (c = root ∨ (c - 1) / 2 = root ∧ 0 < c ∧ c < n ∧ cell c < cell root) ∧
      ∀ i, 0 < i → i < n → (i - 1) / 2 = root → cell c ≤ cell i := by
  intro c cell
  have hcount := count_le hsize huser
  have hgreater : ∀ {i j}, i < n → j < n → lo ≤ i → lo ≤ j →
      (greater compare base size m i j ↔ cell i < cell j) := fun hi hj =>
    greater_iff hrank huser (hi.trans_le hn) (hj.trans_le hn)
  have hmod : (2 * root + 1 + 1) % 2 ^ 32 = 2 * root + 2 := Nat.mod_eq_of_lt (by omega)
  obtain ⟨l, hl⟩ : ∃ l, l = if cell (2 * root + 1) < cell root then 2 * root + 1 else root := ⟨_, rfl⟩
  have hln : l < n ∧ lo ≤ l := by split_ifs at hl <;> omega
  have hlroot : (l = root ∨ l = 2 * root + 1 ∧ cell l < cell root) ∧ cell l ≤ cell root ∧
      cell l ≤ cell (2 * root + 1) := by
    split_ifs at hl with hlt
    · exact ⟨.inr ⟨hl, hl ▸ hlt⟩, hl ▸ hlt.le, hl ▸ le_rfl⟩
    · exact ⟨.inl hl, hl ▸ le_rfl, by rw [hl]; exact not_lt.1 hlt⟩
  have hc : c = if 2 * root + 2 < n ∧ cell (2 * root + 2) < cell l then 2 * root + 2 else l := by
    simp only [c, siftLargest, hmod]
    rw [if_congr (hgreater hchild (by omega) (by omega) hlo) rfl rfl, ← hl]
    exact if_congr (and_congr_right fun h => hgreater h hln.1 (by omega) hln.2) rfl rfl
  have hsplit : ∀ i, 0 < i → (i - 1) / 2 = root → i = 2 * root + 1 ∨ i = 2 * root + 2 := by omega
  by_cases hsecond : 2 * root + 2 < n ∧ cell (2 * root + 2) < cell l
  · rw [if_pos hsecond] at hc
    rw [hc]
    refine ⟨.inr ⟨by omega, by omega, hsecond.1, hsecond.2.trans_le hlroot.2.1⟩, ?_⟩
    intro i hi _ hpar
    rcases hsplit i hi hpar with rfl | rfl
    · exact hsecond.2.le.trans hlroot.2.2
    · exact le_rfl
  · rw [if_neg hsecond] at hc
    rw [hc]
    refine ⟨hlroot.1.imp_right fun h => ⟨by omega, by omega, hln.1, h.2⟩, ?_⟩
    intro i hi hin hpar
    rcases hsplit i hi hpar with rfl | rfl
    · exact hlroot.2.2
    · exact not_lt.1 fun hlt => hsecond ⟨hin, hlt⟩

/-- What a run of the sort has done to the first `n` elements: they are a heap from `lo` on, in some
order, and no byte outside them has changed. -/
structure Sifted (rank : List (BitVec 8) → κ) (base size lo n : ℕ) (m m' : Memory) : Prop where
  heap : IsHeap (sortKey rank lo (element base size m')) n
  rearranged : Permuted n (element base size m) (element base size m')
  outside : ∀ a, a < base ∨ base + n * size ≤ a → m' a = m a

theorem swapBytes_outside {i j : ℕ} (hne : i ≠ j) (hi : i < n) (hj : j < n) {a : ℕ}
    (ha : a < base ∨ base + n * size ≤ a) :
    swapBytes m (base + i * size) (base + j * size) size a = m a := by
  have := (Nat.lt_or_gt_of_ne hne).imp (element_apart size) (element_apart size)
  have := element_apart size hi
  have := element_apart size hj
  rw [swapBytes_apply _ _ _ _ _ (by omega), if_neg (by omega), if_neg (by omega)]

include hrank hsize huser in
theorem siftElement_sifted (hn : n ≤ count) : ∀ (fuel : ℕ) (m : Memory) (root : ℕ), lo ≤ root →
    root < n → n ≤ fuel + root → Sinking (sortKey rank lo (element base size m)) n root →
    ∃ m', siftElement compare base size fuel m root n = some m' ∧ Sifted rank base size lo n m m'
  | 0, _, _, _, hroot, hfuel, _ => by omega
  | fuel + 1, m, root, hlo, hroot, hfuel, h => by
    have hcount := count_le hsize huser
    have hmod : (2 * root + 1) % 2 ^ 32 = 2 * root + 1 := Nat.mod_eq_of_lt (by omega)
    simp only [siftElement, hmod]
    split
    · rename_i hleaf
      exact ⟨m, rfl, h.done fun i hi hin hpar => by omega, .refl _ _, fun _ _ => rfl⟩
    rename_i hchild
    obtain ⟨hc, hleast⟩ := siftLargest_spec (m := m) hrank hsize huser hn hlo (not_le.1 hchild)
    generalize siftLargest compare base size m root (2 * root + 1) n = c at hc hleast
    split
    · rename_i heq
      subst heq
      exact ⟨m, rfl, h.done hleast, .refl _ _, fun _ _ => rfl⟩
    rename_i hne
    obtain ⟨hpar, hpos, hcn, hlt⟩ := hc.resolve_left hne
    rw [elementPointer_eq huser (by omega), elementPointer_eq huser (by omega)]
    have hel := swapBytes_element m base size (Ne.symm hne)
    have hswap := h.swap hpar hpos hcn hlt hleast
    rw [← sortKey_swap hlo (by omega), ← hel] at hswap
    obtain ⟨m', hm', hs⟩ := siftElement_sifted hn fuel _ c (by omega) hcn (by omega) hswap
    refine ⟨m', hm', hs.heap, .trans (hel ▸ .swap hroot hcn) hs.rearranged, fun a ha => ?_⟩
    rw [hs.outside a ha, swapBytes_outside (Ne.symm hne) hroot hcn ha]

/-! ## The two phases -/

include hrank hsize huser in
theorem buildHeap_sifted {fuel : ℕ} (hfuel : count ≤ fuel) : ∀ (index : ℕ) (m : Memory),
    index ≤ count → IsHeap (sortKey rank index (element base size m)) count →
    ∃ m', buildHeap compare base size fuel count index m = some m' ∧
      Sifted rank base size 0 count m m'
  | 0, m, _, h => ⟨m, rfl, h, .refl _ _, fun _ _ => rfl⟩
  | index + 1, m, hindex, h => by
    have htop : ∀ i, i < index → ∀ x : (WithTop κ)ᵒᵈ,
        sortKey rank index (element base size m) i ≤ x := by
      intro i hi x
      rw [sortKey, if_pos hi]
      exact le_top (α := WithTop κ)
    have hsink : Sinking (sortKey rank index (element base size m)) count index :=
      { order := fun i hi hin hpar => by
          rcases Nat.lt_or_gt_of_ne hpar with hlt | hgt
          · exact htop _ hlt _
          · have := h i hi hin
            rwa [sortKey, sortKey, if_neg (by omega), if_neg (by omega)] at this ⊢
        grand := fun i _ _ _ _ => htop _ (by omega) _ }
    obtain ⟨m1, hm1, hs1⟩ := siftElement_sifted hrank hsize huser le_rfl fuel m index le_rfl
      (by omega) (by omega) hsink
    obtain ⟨m2, hm2, hs2⟩ := buildHeap_sifted hfuel index m1 (by omega) hs1.heap
    refine ⟨m2, by rw [buildHeap, hm1]; exact hm2, hs2.heap, hs1.rearranged.trans hs2.rearranged,
      fun a ha => ?_⟩
    rw [hs2.outside a ha, hs1.outside a ha]

/-- From `n` on, no element is less than one before it. -/
def SortedFrom (rank : List (BitVec 8) → κ) (n count : ℕ) (el : ℕ → List (BitVec 8)) : Prop :=
  ∀ i j, i < j → n ≤ j → j < count → rank (el i) ≤ rank (el j)

include hrank hsize huser in
theorem extractAll_sorted {fuel : ℕ} (hfuel : count ≤ fuel) : ∀ (n : ℕ) (m : Memory), n ≤ count →
    IsHeap (sortKey rank 0 (element base size m)) n →
    SortedFrom rank n count (element base size m) →
    ∃ m', extractAll compare base size fuel n m = some m' ∧
      SortedFrom rank 1 count (element base size m') ∧
      Permuted count (element base size m) (element base size m') ∧
      ∀ a, a < base ∨ base + count * size ≤ a → m' a = m a
  | 0, m, _, _, h => ⟨m, rfl, fun i j hij _ => h i j hij (by omega), .refl _ _, fun _ _ => rfl⟩
  | 1, m, _, _, h => ⟨m, rfl, h, .refl _ _, fun _ _ => rfl⟩
  | n + 2, m, hn, hheap, h => by
    have hel := swapBytes_element m base size (Nat.zero_ne_add_one n)
    rw [Nat.zero_mul, Nat.add_zero] at hel
    have hout : ∀ a, a < base ∨ base + (n + 2) * size ≤ a →
        swapBytes m base (base + (n + 1) * size) size a = m a := by
      intro a ha
      have := swapBytes_outside (m := m) (Nat.zero_ne_add_one n) (by omega) (by omega) ha
      rwa [Nat.zero_mul, Nat.add_zero] at this
    have hsink : Sinking (sortKey rank 0 (swapCells (element base size m) 0 (n + 1))) (n + 1) 0 := by
      refine hheap.replace_sinking (Nat.succ_pos n) (fun i hi hne => ?_) (by omega)
      rw [sortKey, sortKey, swapCells_of_ne hne (by omega)]
    rw [← hel] at hsink
    obtain ⟨m1, hm1, hs⟩ := siftElement_sifted hrank hsize huser (by omega) fuel _ 0 le_rfl
      (by omega) (by omega) hsink
    have hre : Permuted (n + 2) (element base size m) (element base size m1) :=
      .trans (hel ▸ .swap (by omega) (by omega)) (hs.rearranged.mono (by omega))
    obtain ⟨m2, hm2, hsorted, hre2, hout2⟩ := extractAll_sorted hfuel (n + 1) m1 (by omega) hs.heap (by
      intro i j hij hj hjc
      obtain ⟨i', hi', hlt, heq⟩ := hre.from_lt i
      rw [hi']
      rcases Nat.eq_or_lt_of_le hj with rfl | hj
      · -- the last place now holds what was the root
        have hroot : element base size m1 (n + 1) = element base size m 0 := by
          obtain ⟨k, hk, _, hsame⟩ := hs.rearranged.from_lt (n + 1)
          rw [hk, hsame le_rfl, hel, swapCells_right (by omega)]
        rw [hroot]
        have := hheap.root_le i' (hlt (by omega))
        simpa [sortKey] using this
      · obtain ⟨j', hj', _, hsame⟩ := hre.from_lt j
        rw [hj', hsame hj]
        exact h i' j (by omega) hj hjc)
    refine ⟨m2, ?_, hsorted, (hre.mono hn).trans hre2, fun a ha => ?_⟩
    · rw [extractAll, elementPointer_eq huser (by omega), hm1]
      exact hm2
    · have := Nat.mul_le_mul_right size hn
      have := Nat.mul_le_mul_right size (show n + 1 ≤ n + 2 by omega)
      rw [hout2 a ha, hs.outside a (by omega), hout a (by omega)]

end Sift

theorem TotalPreorder.exists_rank {α : Type} {compare : α → α → ℤ} (h : TotalPreorder compare) :
    ∃ (κ : Type) (_ : LinearOrder κ) (rank : α → κ), ∀ a b, compare a b > 0 ↔ rank b < rank a := by
  classical
  let : Preorder α :=
    { le := fun a b => compare a b ≤ 0
      le_refl := fun a => (h.total a a).elim id id
      le_trans := h.trans }
  have : @Std.Total α (· ≤ ·) := ⟨h.total⟩
  refine ⟨Antisymmetrization α (· ≤ ·), inferInstance, toAntisymmetrization _, fun a b => ?_⟩
  rw [← not_le, toAntisymmetrization_le_toAntisymmetrization_iff]
  exact not_le.symm

theorem qsort_sorts {compare : Compare} (h : TotalPreorder compare) {array count size fuel : ℕ}
    (m : Memory) (harray : 0 < array) (huser : array + count * size ≤ astraUserAddressEnd)
    (hfuel : count ≤ fuel) :
    ∃ m', qsort fuel m array count size (some compare) = some m' ∧
      Permuted count (element array size m) (element array size m') ∧
      (∀ i, i + 1 < count → compare (element array size m' i) (element array size m' (i + 1)) ≤ 0) ∧
      ∀ a, a < array ∨ array + count * size ≤ a → m' a = m a := by
  obtain ⟨κ, _, rank, hrank⟩ := h.exists_rank
  simp only [qsort]
  split
  · rename_i hnone
    refine ⟨m, rfl, .refl _ _, fun i hi => ?_, fun _ _ => rfl⟩
    rcases hnone with h0 | rfl | h2
    · omega
    · exact (h.total [] []).elim id id
    · omega
  rename_i hsome
  have hsize : 0 < size := by omega
  obtain ⟨m1, hm1, hs⟩ := buildHeap_sifted hrank hsize huser hfuel (count / 2) m (by omega) (by
    intro i hi hin
    rw [sortKey, if_pos (by omega)]
    exact le_top (α := WithTop κ))
  obtain ⟨m2, hm2, hsorted, hre, hout⟩ := extractAll_sorted hrank hsize huser hfuel count m1 le_rfl
    hs.heap fun i j _ hj hjc => by omega
  refine ⟨m2, by rw [hm1]; exact hm2, hs.rearranged.trans hre, fun i hi => ?_, fun a ha => ?_⟩
  · refine not_lt.1 fun hgt => ?_
    exact absurd ((hrank _ _).1 hgt) (not_lt.2 (hsorted i (i + 1) (by omega) (by omega) hi))
  · rw [hout a ha, hs.outside a ha]

/-- Elements in the order of their first byte. -/
def byteOrder : Compare := fun a b => (a.headD 0).toNat - (b.headD 0).toNat

theorem qsort_sorts_byteOrder : TotalPreorder byteOrder ∧
    ∃ m', qsort 3 (fun a => BitVec.ofNat 8 (7 * a)) 4096 3 1 (some byteOrder) = some m' ∧
      ∀ i, i + 1 < 3 → byteOrder (element 4096 1 m' i) (element 4096 1 m' (i + 1)) ≤ 0 := by
  have h : TotalPreorder byteOrder :=
    { total := fun a b => by unfold byteOrder; omega
      trans := fun a b c => by unfold byteOrder; omega }
  obtain ⟨m', hm', _, hsorted, _⟩ := qsort_sorts h (fun a => BitVec.ofNat 8 (7 * a))
    (show 0 < 4096 by decide) (show 4096 + 3 * 1 ≤ astraUserAddressEnd by decide) le_rfl
  exact ⟨h, m', hm', hsorted⟩

end Astra
