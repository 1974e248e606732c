import Mathlib.Data.Finset.Lattice.Fold
import Mathlib.Data.Fintype.EquivFin

/-!
# Chains of a partial function, and values inherited along them

`Chain f x l` is the walk from `x` that follows `f` until it is undefined. A partial function whose
every walk ends is `Grounded`; it has no cycle, and its walks stay within any finite set that holds
the keys they visit. Where each key's value is the greatest of its own and of the values of the
keys that point at it (`Inherits`), the value is bounded by `b` exactly when every key whose walk
passes it is (`Inherits.le_iff`). A relation that leads on from every member of a finite set has a
cycle (`exists_cycle`).
-/

namespace Astra

open Function List

variable {K : Type*}

/-- The walk from `x` that follows `f` until it is undefined. -/
inductive Chain (f : K → Option K) : K → List K → Prop
  | last {x : K} : f x = none → Chain f x [x]
  | step {x y : K} {l : List K} : f x = some y → Chain f y l → Chain f x (x :: l)

namespace Chain

variable {f g : K → Option K} {x y : K} {l l' : List K}

section

variable (h : Chain f x l)
include h

theorem head_mem : x ∈ l := by
  cases h <;> simp

theorem unique (h' : Chain f x l') : l = l' := by
  induction h generalizing l' with
  | last hx =>
    cases h' with
    | last => rfl
    | step hy => rw [hx] at hy; exact absurd hy (by simp)
  | step hx _ ih =>
    cases h' with
    | last hy => rw [hx] at hy; exact absurd hy (by simp)
    | step hy hl =>
      cases hx.symm.trans hy
      rw [ih hl]

/-- From a key of a walk, the rest of it is that key's walk. -/
theorem suffix (hy : y ∈ l) : ∃ l₁ l₂, l = l₁ ++ l₂ ∧ Chain f y l₂ := by
  induction h with
  | last hx =>
    obtain rfl := mem_singleton.1 hy
    exact ⟨[], _, rfl, .last hx⟩
  | @step x z l hx hl ih =>
    rcases mem_cons.1 hy with rfl | hy
    · exact ⟨[], _, rfl, .step hx hl⟩
    · obtain ⟨l₁, l₂, rfl, h₂⟩ := ih hy
      exact ⟨x :: l₁, l₂, rfl, h₂⟩

theorem nodup : l.Nodup := by
  induction h with
  | last => exact nodup_singleton _
  | @step x z l hx hl ih =>
    refine nodup_cons.2 ⟨fun hm => ?_, ih⟩
    obtain ⟨l₁, l₂, hl', h₂⟩ := hl.suffix hm
    have hlen := congrArg List.length (h₂.unique (.step hx hl))
    rw [hl', length_cons, length_append] at hlen
    omega

end

/-- No walk comes back to the key before it. -/
theorem notMem (hl : Chain f y l) (hxy : f x = some y) : x ∉ l :=
  (nodup_cons.1 (Chain.step hxy hl).nodup).1

theorem congr (h : Chain f x l) (he : ∀ z ∈ l, g z = f z) : Chain g x l := by
  induction h with
  | last hx => exact .last ((he _ (by simp)).trans hx)
  | step hx _ ih =>
    exact .step ((he _ (by simp)).trans hx) (ih fun z hz => he z (mem_cons_of_mem _ hz))

/-- A walk whose steps land in `S`, from a key of `S`, is no longer than `S`. -/
theorem length_le [DecidableEq K] (h : Chain f x l) {S : Finset K} (hx : x ∈ S)
    (hS : ∀ y z, f y = some z → z ∈ S) : l.length ≤ S.card := by
  have hsub : ∀ z ∈ l, z ∈ S := by
    induction h with
    | last => simpa using hx
    | step hxy _ ih =>
      intro z hz
      rcases mem_cons.1 hz with rfl | hz
      · exact hx
      · exact ih (hS _ _ hxy) z hz
  rw [← toFinset_card_of_nodup h.nodup]
  exact Finset.card_le_card fun z hz => hsub z (mem_toFinset.1 hz)

end Chain

/-- Every walk ends. -/
def Grounded (f : K → Option K) : Prop :=
  ∀ x, ∃ l, Chain f x l

namespace Grounded

variable {f g : K → Option K}

theorem of_none (h : ∀ x, f x = none) : Grounded f :=
  fun x => ⟨[x], .last (h x)⟩

/-- Dropping edges keeps every walk finite. -/
theorem mono (h : Grounded f) (hg : ∀ x, g x = none ∨ g x = f x) : Grounded g := by
  intro x
  obtain ⟨l, hl⟩ := h x
  induction hl with
  | @last x hx => exact ⟨[x], .last ((hg x).elim id fun he => he.trans hx)⟩
  | @step x y l hx hl ih =>
    rcases hg x with hn | he
    · exact ⟨[x], .last hn⟩
    · obtain ⟨m, hm⟩ := ih
      exact ⟨x :: m, .step (he.trans hx) hm⟩

/-- An edge from a key that the target's walk does not visit keeps every walk finite. -/
theorem link [DecidableEq K] (h : Grounded f) {x y : K} {l : List K} (hl : Chain f y l)
    (hx : x ∉ l) : Grounded (update f x (some y)) := by
  have hy : Chain (update f x (some y)) y l :=
    hl.congr fun z hz => update_of_ne (ne_of_mem_of_not_mem hz hx) _ _
  intro z
  obtain ⟨m, hm⟩ := h z
  induction hm with
  | @last z hz =>
    rcases eq_or_ne z x with rfl | hzx
    · exact ⟨z :: l, .step (update_self ..) hy⟩
    · exact ⟨[z], .last ((update_of_ne hzx _ _).trans hz)⟩
  | @step z w m hz hm ih =>
    rcases eq_or_ne z x with rfl | hzx
    · exact ⟨z :: l, .step (update_self ..) hy⟩
    · obtain ⟨m', hm'⟩ := ih
      exact ⟨z :: m', .step ((update_of_ne hzx _ _).trans hz) hm'⟩

end Grounded

/-- `y`'s walk passes `x`, and visits only keys of `P` before it gets there. -/
inductive Reaches (f : K → Option K) (P : K → Prop) (x : K) : K → Prop
  | refl : Reaches f P x x
  | step {y z : K} : P y → f y = some z → Reaches f P x z → Reaches f P x y

theorem Reaches.tail {f : K → Option K} {P : K → Prop} {x y z : K} (h : Reaches f P x y)
    (hz : P z) (hzy : f z = some y) : Reaches f P x z :=
  .step hz hzy h

theorem Reaches.trans {f : K → Option K} {P : K → Prop} {x y z : K} (h : Reaches f P x y)
    (h' : Reaches f P y z) : Reaches f P x z := by
  induction h' with
  | refl => exact h
  | step hP hf _ ih => exact .step hP hf ih

/-- Each key of `S` has the greatest of its own value and of the values of the keys of `S` that
point at it. -/
def Inherits (f : K → Option K) (S : K → Prop) (own eff : K → ℕ) : Prop :=
  ∀ x, S x → ∀ b, eff x ≤ b ↔ own x ≤ b ∧ ∀ y, S y → f y = some x → eff y ≤ b

namespace Inherits

variable {f : K → Option K} {S : K → Prop} {own eff : K → ℕ}

section

variable (h : Inherits f S own eff)
include h

theorem own_le {x : K} (hx : S x) : own x ≤ eff x :=
  ((h x hx _).1 le_rfl).1

theorem donor_le {x y : K} (hx : S x) (hy : S y) (hyx : f y = some x) : eff y ≤ eff x :=
  ((h x hx _).1 le_rfl).2 y hy hyx

/-- Along a grounded `f` whose walks stay in a finite set, a key's value is bounded exactly when
the own values of all the keys whose walk passes it are. -/
theorem le_iff [DecidableEq K] (hf : Grounded f) {T : Finset K}
    (hT : ∀ x, S x → x ∈ T) (hS : ∀ y z, S y → f y = some z → S z) {x : K} (hx : S x) {b : ℕ} :
    eff x ≤ b ↔ ∀ y, Reaches f S x y → own y ≤ b := by
  have hST : ∀ {x l}, S x → Chain f x l → l.length ≤ T.card := by
    intro x l hx hl
    have hsub : ∀ z ∈ l, S z := by
      induction hl with
      | last => simpa using hx
      | step hxy _ ih =>
        intro z hz
        rcases mem_cons.1 hz with rfl | hz
        · exact hx
        · exact ih (hS _ _ hx hxy) z hz
    rw [← toFinset_card_of_nodup hl.nodup]
    exact Finset.card_le_card fun z hz => hT z (hsub z (mem_toFinset.1 hz))
  constructor
  · intro hb y hy
    have hle : ∀ y, Reaches f S x y → S y ∧ eff y ≤ eff x := by
      intro y hy
      induction hy with
      | refl => exact ⟨hx, le_rfl⟩
      | step hP hyz _ ih => exact ⟨hP, (h.donor_le ih.1 hP hyz).trans ih.2⟩
    exact (h.own_le (hle y hy).1).trans ((hle y hy).2.trans hb)
  · -- induction on how far the walk from `x` can still be extended backwards inside `T`
    obtain ⟨l, hl⟩ := hf x
    obtain ⟨n, hn⟩ : ∃ n, n + l.length = T.card + 1 :=
      ⟨T.card + 1 - l.length, by have := hST hx hl; omega⟩
    intro hb
    induction n generalizing x l with
    | zero =>
      have := hST hx hl
      omega
    | succ n ih =>
      refine (h x hx b).2 ⟨hb x .refl, fun y hy hyx => ?_⟩
      have hyl := Chain.step hyx hl
      refine ih hy _ hyl (by rw [length_cons]; omega) fun z hz => hb z ?_
      exact (Reaches.refl.tail hy hyx).trans hz

end

end Inherits

/-- A finite set each of whose members is followed by one of its members has a cycle. -/
theorem exists_cycle {K : Type*} {r : K → K → Prop} (S : Finset K) (hS : S.Nonempty)
    (hr : ∀ x ∈ S, ∃ y ∈ S, r x y) : ∃ x, Relation.TransGen r x x := by
  by_contra hn
  push Not at hn
  -- Without a cycle there is a member that leads to no other.
  let after : S → S → Prop := fun x y => Relation.TransGen r y x
  have : IsTrans S after := ⟨fun _ _ _ hxy hyz => hyz.trans hxy⟩
  have : Std.Irrefl after := ⟨fun x => hn x⟩
  have hwf : WellFounded after := Finite.wellFounded_of_trans_of_irrefl _
  obtain ⟨x, -, hmin⟩ := hwf.has_min Set.univ (hS.coe_sort.elim fun x => ⟨x, trivial⟩)
  obtain ⟨y, hy, hxy⟩ := hr x x.2
  exact hmin ⟨y, hy⟩ trivial (.single hxy)

end Astra
