import Mathlib.Data.List.Infix
import Mathlib.Data.List.Nodup

/-!
# Intrusive doubly linked lists

A family of lists whose links are two columns over the keys, `nxt` and `prv`, with a head for each
list. `LinkedLists` says that the columns and the heads hold the lists `L`; a key on no list has
no links. Inserting a fresh key and removing a key are described pointwise, by what the columns
hold afterwards, so the order in which a program writes its links does not matter.
-/

namespace Astra

open Function List

variable {K I : Type*}

/-- `nxt` and `prv` thread the keys of the list, entered from the key before it and left to the
key after it. -/
def Linked (nxt prv : K → Option K) : Option K → List K → Option K → Prop
  | _, [], _ => True
  | a, x :: l, b => prv x = a ∧ nxt x = l.head?.or b ∧ Linked nxt prv (some x) l b

theorem linked_append {nxt prv : K → Option K} :
    ∀ (l : List K) {m : List K} {a b : Option K}, Linked nxt prv a (l ++ m) b ↔
      Linked nxt prv a l (m.head?.or b) ∧ Linked nxt prv (l.getLast?.or a) m b
  | [], m, a, b => by simp [Linked]
  | x :: l, m, a, b => by
    have hl : (x :: l).getLast?.or a = l.getLast?.or (some x) := by
      rw [List.getLast?_cons]
      cases l.getLast? <;> simp
    simp only [cons_append, Linked, linked_append l, hl, List.head?_append, Option.or_assoc,
      and_assoc]

theorem Linked.congr {nxt prv nxt' prv' : K → Option K} :
    ∀ {l : List K} {a b : Option K}, Linked nxt prv a l b →
      (∀ x ∈ l, nxt' x = nxt x ∧ prv' x = prv x) → Linked nxt' prv' a l b
  | [], _, _, _, _ => trivial
  | x :: l, a, b, h, he => by
    obtain ⟨h1, h2, h3⟩ := h
    obtain ⟨e1, e2⟩ := he x mem_cons_self
    exact ⟨e2.trans h1, e1.trans h2, h3.congr fun y hy => he y (mem_cons_of_mem _ hy)⟩

/-- Only the first key's `prv` depends on where the list is entered from. -/
theorem Linked.enter {nxt prv prv' : K → Option K} {l : List K} {a a' b : Option K}
    (h : Linked nxt prv a l b) (hn : l.Nodup) (hh : ∀ x, l.head? = some x → prv' x = a')
    (he : ∀ x ∈ l, l.head? ≠ some x → prv' x = prv x) : Linked nxt prv' a' l b := by
  rcases l with _ | ⟨x, l⟩
  · trivial
  · obtain ⟨-, h2, h3⟩ := h
    refine ⟨hh x rfl, h2, h3.congr fun y hy => ⟨rfl, ?_⟩⟩
    refine he y (mem_cons_of_mem _ hy) fun hx => ?_
    obtain rfl : x = y := by simpa using hx
    exact (nodup_cons.1 hn).1 hy

/-- Only the last key's `nxt` depends on where the list is left to. -/
theorem Linked.leave {nxt prv nxt' : K → Option K} :
    ∀ {l : List K} {a b b' : Option K}, Linked nxt prv a l b → l.Nodup →
      (∀ x, l.getLast? = some x → nxt' x = b') →
      (∀ x ∈ l, l.getLast? ≠ some x → nxt' x = nxt x) → Linked nxt' prv a l b'
  | [], _, _, _, _, _, _, _ => trivial
  | [x], a, b, b', h, _, hl, _ => by
    obtain ⟨h1, h2, h3⟩ := h
    exact ⟨h1, by simp [hl x rfl], trivial⟩
  | x :: y :: l, a, b, b', h, hn, hl, he => by
    obtain ⟨h1, h2, h3⟩ := h
    obtain ⟨hxl, hyl⟩ := nodup_cons.1 hn
    have hx : (x :: y :: l).getLast? ≠ some x := by
      rw [List.getLast?_cons_cons]
      exact fun hx => hxl (mem_of_getLast? hx)
    refine ⟨h1, ?_, h3.leave hyl (fun z hz => hl z ?_) fun z hz hzl =>
      he z (mem_cons_of_mem _ hz) ?_⟩
    · rw [he x mem_cons_self hx, h2]
      simp
    · rwa [List.getLast?_cons_cons]
    · rwa [List.getLast?_cons_cons]

/-- The columns `nxt` and `prv` and the heads `hd` hold the lists `L`: disjoint, without
repetition, and with no links on a key that is on no list. -/
structure LinkedLists (nxt prv : K → Option K) (hd : I → Option K) (L : I → List K) : Prop where
  nodup : ∀ i, (L i).Nodup
  disjoint : ∀ i j x, x ∈ L i → x ∈ L j → i = j
  head : ∀ i, hd i = (L i).head?
  linked : ∀ i, Linked nxt prv none (L i) none
  off : ∀ x, (∀ i, x ∉ L i) → nxt x = none ∧ prv x = none

namespace LinkedLists

variable {nxt prv nxt' prv' : K → Option K} {hd hd' : I → Option K} {L : I → List K}

theorem empty : LinkedLists (fun _ : K => none) (fun _ => none) (fun _ : I => none)
    (fun _ => []) :=
  ⟨fun _ => nodup_nil, fun _ _ _ h => absurd h not_mem_nil, fun _ => rfl,
    fun _ => trivial, fun _ _ => ⟨rfl, rfl⟩⟩

section

variable (h : LinkedLists nxt prv hd L)
include h

/-- What the links of a key in the middle of a list say. -/
theorem at_split {i : I} {l m : List K} {x : K}
    (hL : L i = l ++ x :: m) : nxt x = m.head? ∧ prv x = l.getLast? := by
  have hx := h.linked i
  rw [hL, linked_append] at hx
  obtain ⟨h1, h2, -⟩ := hx.2
  simpa using And.intro h2 h1

/-- The link of the last key before a cut, and of the first key after it. -/
theorem at_cut {i : I} {l m : List K} (hL : L i = l ++ m) :
    (∀ y, l.getLast? = some y → nxt y = m.head?) ∧ ∀ y, m.head? = some y → prv y = l.getLast? := by
  refine ⟨fun y hy => ?_, fun y hy => ?_⟩
  · obtain ⟨l', rfl⟩ := List.getLast?_eq_some_iff.1 hy
    rw [append_assoc, singleton_append] at hL
    exact (h.at_split hL).1
  · obtain ⟨m', rfl⟩ := List.head?_eq_some_iff.1 hy
    exact (h.at_split hL).2

theorem notMem_split {i : I} {l m : List K} {x : K} (hL : L i = l ++ x :: m) : x ∉ l ∧ x ∉ m := by
  have hn := h.nodup i
  rw [hL, nodup_middle, nodup_cons, mem_append, not_or] at hn
  exact hn.1

/-- A key of another list is at neither side of a cut of this one. -/
theorem ne_cut {i j : I} {l m : List K} (hL : L i = l ++ m)
    (hij : j ≠ i) {y : K} (hy : y ∈ L j) : l.getLast? ≠ some y ∧ m.head? ≠ some y := by
  refine ⟨fun hl => hij ?_, fun hm => hij ?_⟩
  · exact h.disjoint j i y hy (by rw [hL]; exact mem_append_left _ (mem_of_getLast? hl))
  · exact h.disjoint j i y hy (by rw [hL]; exact mem_append_right _ (mem_of_head? hm))

/-- The two sides of a cut, threaded to each other. -/
theorem linked_cut {i : I} {l m : List K} (hL : L i = l ++ m) :
    Linked nxt prv none l m.head? ∧ Linked nxt prv l.getLast? m none := by
  have := h.linked i
  rw [hL, linked_append] at this
  simpa using this

end

variable [DecidableEq I] [DecidableEq K]

/-- A key on no list is put between two neighbours, or at an end. -/
theorem insert (h : LinkedLists nxt prv hd L) {i : I} {l m : List K} {x : K}
    (hL : L i = l ++ m) (hx : ∀ j, x ∉ L j)
    (hnx : nxt' x = m.head?) (hpx : prv' x = l.getLast?)
    (hn : ∀ y, y ≠ x → nxt' y = if l.getLast? = some y then some x else nxt y)
    (hp : ∀ y, y ≠ x → prv' y = if m.head? = some y then some x else prv y)
    (hh : hd' i = (l ++ x :: m).head?) (hh' : ∀ j, j ≠ i → hd' j = hd j) :
    LinkedLists nxt' prv' hd' (update L i (l ++ x :: m)) := by
  have hxl : x ∉ l ∧ x ∉ m := by simpa [hL] using hx i
  have hnd := h.nodup i
  rw [hL] at hnd
  obtain ⟨hnl, hnm, hlm⟩ := nodup_append.1 hnd
  obtain ⟨hll, hlr⟩ := h.linked_cut hL
  refine ⟨fun j => ?_, fun j k y hj hk => ?_, fun j => ?_, fun j => ?_, fun y hy => ?_⟩
  · rcases eq_or_ne j i with rfl | hji
    · rw [update_self, nodup_middle, nodup_cons]
      exact ⟨by simpa using hxl, hnd⟩
    · rw [update_of_ne hji]
      exact h.nodup j
  · by_contra hjk
    rcases eq_or_ne y x with rfl | hyx
    · rcases eq_or_ne j i with rfl | hji
      · rw [update_of_ne (Ne.symm hjk)] at hk
        exact hx k hk
      · rw [update_of_ne hji] at hj
        exact hx j hj
    · have hmem : ∀ k, y ∈ update L i (l ++ x :: m) k → y ∈ L k := by
        intro k hk
        rcases eq_or_ne k i with rfl | hki
        · simpa [hL, hyx] using hk
        · rwa [update_of_ne hki] at hk
      exact hjk (h.disjoint j k y (hmem j hj) (hmem k hk))
  · rcases eq_or_ne j i with rfl | hji
    · rw [update_self, hh]
    · rw [update_of_ne hji, hh' j hji, h.head j]
  · rcases eq_or_ne j i with rfl | hji
    · rw [update_self, linked_append]
      refine ⟨?_, by simpa using hpx, by simpa using hnx, ?_⟩
      · refine Linked.leave (show Linked nxt prv' none l m.head? from
          hll.congr fun y hy => ⟨rfl, ?_⟩) hnl (fun y hy => ?_) fun y hy hyl => ?_
        · rw [hp y fun he => hxl.1 (he ▸ hy), if_neg fun he => hlm y hy y (mem_of_head? he) rfl]
        · rw [hn y fun he => hxl.1 (he ▸ mem_of_getLast? hy), if_pos hy]
          simp
        · rw [hn y fun he => hxl.1 (he ▸ hy), if_neg hyl]
      · refine Linked.enter (show Linked nxt' prv _ m none from
          hlr.congr fun y hy => ⟨?_, rfl⟩) hnm (fun y hy => ?_) fun y hy hym => ?_
        · rw [hn y fun he => hxl.2 (he ▸ hy),
            if_neg fun he => hlm y (mem_of_getLast? he) y hy rfl]
        · rw [hp y fun he => hxl.2 (he ▸ mem_of_head? hy), if_pos hy]
        · rw [hp y fun he => hxl.2 (he ▸ hy), if_neg hym]
    · rw [update_of_ne hji]
      refine (h.linked j).congr fun y hy => ?_
      have hyx : y ≠ x := fun he => hx j (he ▸ hy)
      obtain ⟨h1, h2⟩ := h.ne_cut hL hji hy
      rw [hn y hyx, if_neg h1, hp y hyx, if_neg h2]
      exact ⟨rfl, rfl⟩
  · have hyi := hy i
    rw [update_self, mem_append, mem_cons, not_or, not_or] at hyi
    obtain ⟨hyl, hyx, hym⟩ := hyi
    rw [hn y hyx, if_neg fun he => hyl (mem_of_getLast? he), hp y hyx,
      if_neg fun he => hym (mem_of_head? he)]
    refine h.off y fun j hj => ?_
    rcases eq_or_ne j i with rfl | hji
    · rw [hL, mem_append] at hj
      exact hj.elim hyl hym
    · exact hy j (by rwa [update_of_ne hji])

/-- Cutting a key out of its list is filtering it out of every list. -/
theorem update_cut (h : LinkedLists nxt prv hd L) {i : I} {l m : List K} {x : K}
    (hL : L i = l ++ x :: m) : update L i (l ++ m) = fun j => (L j).filter (· ≠ x) := by
  obtain ⟨hxl, hxm⟩ := h.notMem_split hL
  funext j
  rcases eq_or_ne j i with rfl | hji
  · have hl : l.filter (· ≠ x) = l :=
      filter_eq_self.2 fun y hy => by simpa using fun he : y = x => hxl (he ▸ hy)
    have hm : m.filter (· ≠ x) = m :=
      filter_eq_self.2 fun y hy => by simpa using fun he : y = x => hxm (he ▸ hy)
    rw [update_self, hL, filter_append, filter_cons_of_neg (by simp), hl, hm]
  · rw [update_of_ne hji, filter_eq_self.2]
    intro y hy
    have : y ≠ x := fun he => hji (h.disjoint j i x (he ▸ hy) (by simp [hL]))
    simpa using this

/-- A key of a list is taken out, and its neighbours are linked to each other. -/
theorem remove (h : LinkedLists nxt prv hd L) {i : I} {l m : List K} {x : K}
    (hL : L i = l ++ x :: m) (hnx : nxt' x = none) (hpx : prv' x = none)
    (hn : ∀ y, y ≠ x → nxt' y = if l.getLast? = some y then m.head? else nxt y)
    (hp : ∀ y, y ≠ x → prv' y = if m.head? = some y then l.getLast? else prv y)
    (hh : hd' i = (l ++ m).head?) (hh' : ∀ j, j ≠ i → hd' j = hd j) :
    LinkedLists nxt' prv' hd' (update L i (l ++ m)) := by
  obtain ⟨hxl, hxm⟩ := h.notMem_split hL
  have hnd := h.nodup i
  rw [hL, nodup_middle, nodup_cons] at hnd
  obtain ⟨hnl, hnm, hlm⟩ := nodup_append.1 hnd.2
  obtain ⟨hll, hxr⟩ := h.linked_cut hL
  have hlr : Linked nxt prv (some x) m none := hxr.2.2
  have hsub : ∀ j y, y ∈ update L i (l ++ m) j → y ∈ L j := by
    intro j y hj
    rcases eq_or_ne j i with rfl | hji
    · rw [update_self, mem_append] at hj
      rw [hL, mem_append, mem_cons]
      exact hj.imp_right Or.inr
    · rwa [update_of_ne hji] at hj
  refine ⟨fun j => ?_, fun j k y hj hk => h.disjoint j k y (hsub j y hj) (hsub k y hk),
    fun j => ?_, fun j => ?_, fun y hy => ?_⟩
  · rcases eq_or_ne j i with rfl | hji
    · rw [update_self]
      exact hnd.2
    · rw [update_of_ne hji]
      exact h.nodup j
  · rcases eq_or_ne j i with rfl | hji
    · rw [update_self, hh]
    · rw [update_of_ne hji, hh' j hji, h.head j]
  · rcases eq_or_ne j i with rfl | hji
    · rw [update_self, linked_append]
      refine ⟨?_, ?_⟩
      · refine Linked.leave (show Linked nxt prv' none l (x :: m).head? from
          hll.congr fun y hy => ⟨rfl, ?_⟩) hnl (fun y hy => ?_) fun y hy hyl => ?_
        · rw [hp y fun he => hxl (he ▸ hy), if_neg fun he => hlm y hy y (mem_of_head? he) rfl]
        · rw [hn y fun he => hxl (he ▸ mem_of_getLast? hy), if_pos hy]
          simp
        · rw [hn y fun he => hxl (he ▸ hy), if_neg hyl]
      · refine Linked.enter (show Linked nxt' prv _ m none from
          hlr.congr fun y hy => ⟨?_, rfl⟩) hnm (fun y hy => ?_) fun y hy hym => ?_
        · rw [hn y fun he => hxm (he ▸ hy),
            if_neg fun he => hlm y (mem_of_getLast? he) y hy rfl]
        · rw [hp y fun he => hxm (he ▸ mem_of_head? hy), if_pos hy]
          simp
        · rw [hp y fun he => hxm (he ▸ hy), if_neg hym]
    · rw [update_of_ne hji]
      refine (h.linked j).congr fun y hy => ?_
      have hyx : y ≠ x := fun he => hji (h.disjoint j i x (he ▸ hy) (by simp [hL]))
      have hm : m.head? ≠ some y := fun hm =>
        hji (h.disjoint j i y hy (by simp [hL, mem_of_head? hm]))
      rw [hn y hyx, if_neg (h.ne_cut hL hji hy).1, hp y hyx, if_neg hm]
      exact ⟨rfl, rfl⟩
  · rcases eq_or_ne y x with rfl | hyx
    · exact ⟨hnx, hpx⟩
    · have hyi := hy i
      rw [update_self, mem_append, not_or] at hyi
      rw [hn y hyx, if_neg fun he => hyi.1 (mem_of_getLast? he), hp y hyx,
        if_neg fun he => hyi.2 (mem_of_head? he)]
      refine h.off y fun j hj => ?_
      rcases eq_or_ne j i with rfl | hji
      · rw [hL, mem_append, mem_cons] at hj
        exact hj.elim hyi.1 fun hj => hj.elim hyx hyi.2
      · exact hy j (by rwa [update_of_ne hji])

end LinkedLists

end Astra

/-!
## Free lists threaded through the cells

`Threaded` says that the entry `e` and the links of the cells it leads to spell the list `l`, each
entry being the mark of a cell or the end mark.
-/

namespace Astra

variable {K E : Type*}

def Threaded (next : K → E) (mark : K → E) (stop : E) : E → List K → Prop
  | e, [] => e = stop
  | e, x :: l => e = mark x ∧ Threaded next mark stop (next x) l

theorem Threaded.congr {next next' mark : K → E} {stop : E} :
    ∀ {l : List K} {e : E}, Threaded next mark stop e l → (∀ x ∈ l, next' x = next x) →
      Threaded next' mark stop e l
  | [], _, h, _ => h
  | x :: l, e, h, hn => by
    refine ⟨h.1, ?_⟩
    rw [hn x List.mem_cons_self]
    exact h.2.congr fun y hy => hn y (List.mem_cons_of_mem _ hy)

/-- The end mark is the mark of no cell: the list is empty exactly at the end mark. -/
theorem Threaded.eq_nil {next mark : K → E} {stop : E} {l : List K} {e : E}
    (h : Threaded next mark stop e l) (hstop : ∀ x ∈ l, mark x ≠ stop) : e = stop ↔ l = [] := by
  cases l with
  | nil => exact iff_of_true h rfl
  | cons x l =>
    refine iff_of_false (fun he => ?_) (by simp)
    exact hstop x List.mem_cons_self (h.1.symm.trans he)

end Astra
