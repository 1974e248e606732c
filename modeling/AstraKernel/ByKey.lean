import Mathlib.Data.List.Sort
import Mathlib.Data.List.Perm.Subperm

/-!
# Lists in the order of a key

The elements of a list in the order of a key, where no two have the same one: that order is the only
one (`byKey_eq`), so it can be found from any part of the list.
-/

namespace Astra

open List

variable {α : Type*} (key : α → ℕ)

def AscendingBy (l : List α) : Prop := l.Pairwise fun a b => key a < key b

def DistinctBy (l : List α) : Prop := l.Pairwise fun a b => key a ≠ key b

def byKey (l : List α) : List α := l.insertionSort fun a b => key a ≤ key b

variable {key} {l l' : List α} {a : α}

theorem AscendingBy.distinct (h : AscendingBy key l) : DistinctBy key l := h.imp fun hlt => hlt.ne

theorem DistinctBy.perm (h : DistinctBy key l) (hp : l.Perm l') : DistinctBy key l' :=
  (hp.pairwise_iff fun {_ _} => Ne.symm).1 h

theorem byKey_perm (key : α → ℕ) (l : List α) : (byKey key l).Perm l := perm_insertionSort _ _

theorem byKey_ascending (h : DistinctBy key l) : AscendingBy key (byKey key l) := by
  have : Std.Total fun a b : α => key a ≤ key b := ⟨fun a b => le_total (key a) (key b)⟩
  have : IsTrans α fun a b => key a ≤ key b := ⟨fun _ _ _ => le_trans⟩
  have hsorted : (byKey key l).Pairwise fun a b => key a ≤ key b :=
    pairwise_insertionSort _ l
  exact hsorted.imp₂ (fun _ _ hle hne => lt_of_le_of_ne hle hne) (h.perm (byKey_perm key l).symm)

/-- The order is the only one. -/
theorem byKey_eq (h : AscendingBy key l') (hp : l'.Perm l) : byKey key l = l' := by
  have hsorted := byKey_ascending (h.distinct.perm hp)
  exact ((byKey_perm key l).trans hp.symm).eq_of_pairwise
    (fun a b _ _ hab hba => absurd hab hba.asymm) hsorted h

theorem byKey_congr (h : DistinctBy key l) (hp : l.Perm l') : byKey key l' = byKey key l :=
  byKey_eq (byKey_ascending h) ((byKey_perm key l).trans hp)

theorem byKey_append (h : DistinctBy key l) (h' : DistinctBy key l')
    (hlt : ∀ a ∈ l, ∀ b ∈ l', key a < key b) : byKey key (l ++ l') = byKey key l ++ byKey key l' := by
  refine byKey_eq (pairwise_append.2 ⟨byKey_ascending h, byKey_ascending h', fun a ha b hb => ?_⟩)
    ((byKey_perm key l).append (byKey_perm key l'))
  exact hlt a ((byKey_perm key l).mem_iff.1 ha) b ((byKey_perm key l').mem_iff.1 hb)

/-- The least element comes first. -/
theorem byKey_cons (h : DistinctBy key l') (hp : l.Perm (a :: l')) (hlt : ∀ b ∈ l', key a < key b) :
    byKey key l = a :: byKey key l' := by
  refine byKey_eq (pairwise_cons.2 ⟨fun b hb => ?_, byKey_ascending h⟩)
    (((byKey_perm key l').cons a).trans hp.symm)
  exact hlt b ((byKey_perm key l').mem_iff.1 hb)

/-- Without one of the elements. -/
theorem byKey_without {before behind : List α} (h : AscendingBy key (before ++ a :: behind))
    (hp : (before ++ a :: behind).Perm (a :: l)) : byKey key l = before ++ behind :=
  byKey_eq (h.sublist (by simp)) ((perm_middle.symm.trans hp).cons_inv)

/-- What is in front of an element is what has a lower key. -/
theorem filter_before {before behind : List α} (h : AscendingBy key (before ++ a :: behind)) :
    (before ++ a :: behind).filter (fun b => key b < key a) = before := by
  obtain ⟨-, hbehind, hlt⟩ := pairwise_append.1 h
  have hkept : before.filter (fun b => key b < key a) = before :=
    filter_eq_self.2 fun b hb => decide_eq_true (hlt b hb a mem_cons_self)
  have hgone : behind.filter (fun b => key b < key a) = [] :=
    filter_eq_nil_iff.2 fun b hb => by
      simpa using ((pairwise_cons.1 hbehind).1 b hb).le
  rw [filter_append, hkept, filter_cons_of_neg (by simp), hgone, append_nil]

/-- One more element in one of several lists. -/
theorem flatMap_cons_perm {ι : Type*} {f g : ι → List α} {i : ι} (hi : (f i).Perm (a :: g i))
    (hne : ∀ j ≠ i, f j = g j) : ∀ {is : List ι}, is.Nodup → i ∈ is →
      (is.flatMap f).Perm (a :: is.flatMap g)
  | [], _, h => by cases h
  | j :: is, hnodup, h => by
    rw [nodup_cons] at hnodup
    rw [flatMap_cons, flatMap_cons]
    by_cases hj : j = i
    · subst j
      have hrest : is.flatMap f = is.flatMap g :=
        flatMap_congr fun j hj => hne j fun he => hnodup.1 (he ▸ hj)
      rw [hrest]
      exact hi.append_right _
    · rw [hne j hj]
      exact ((flatMap_cons_perm hi hne hnodup.2 ((mem_cons.1 h).resolve_left (Ne.symm hj))).append_left
        (g j)).trans perm_middle

end Astra
