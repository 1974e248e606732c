import Mathlib.Data.Finset.Card

/-!
# Ledgers of references

`acquired` lists the references there ever were, a reference being its place in the list. Holders
hold some of them and the others were dropped: `Accounted` says that every reference has one
holder or was dropped once, and never both.

A count of the slots that hold something is kept by adding what a change of one slot adds and taking
what it takes.
-/

namespace Astra

open List

theorem card_filter_change {I : Type*} [DecidableEq I] {S : Finset I} {P Q : I → Prop}
    [DecidablePred P] [DecidablePred Q] {i : I} (hi : i ∈ S)
    (h : ∀ j ∈ S, j ≠ i → (Q j ↔ P j)) :
    (S.filter Q).card + (if P i then 1 else 0) = (S.filter P).card + if Q i then 1 else 0 := by
  have hrest : (S.erase i).filter Q = (S.erase i).filter P :=
    Finset.filter_congr fun j hj => h j (Finset.mem_of_mem_erase hj) (Finset.ne_of_mem_erase hj)
  have hcard : ∀ F : I → Prop, ∀ _ : DecidablePred F,
      (S.filter F).card = ((S.erase i).filter F).card + if F i then 1 else 0 := by
    intro F _
    have hni : i ∉ (S.erase i).filter F := fun hm => by simp at hm
    rw [← Finset.insert_erase hi, Finset.filter_insert, Finset.insert_erase hi]
    split_ifs
    · exact Finset.card_insert_of_notMem hni
    · rfl
  have h1 := hcard P inferInstance
  have h2 := hcard Q inferInstance
  rw [hrest] at h2
  omega

variable {H G : Type*}

structure Accounted (acquired : List G) (hold : H → Option (ℕ × G)) (dropped : List (ℕ × G)) :
    Prop where
  held : ∀ h t g, hold h = some (t, g) → acquired[t]? = some g
  once : ∀ h h' t g g', hold h = some (t, g) → hold h' = some (t, g') → h = h'
  gone : ∀ t g, (t, g) ∈ dropped → acquired[t]? = some g
  nodup : (dropped.map Prod.fst).Nodup
  apart : ∀ h t g g', hold h = some (t, g) → (t, g') ∉ dropped
  kept : ∀ t < acquired.length, (∃ g, (t, g) ∈ dropped) ∨ ∃ h g, hold h = some (t, g)

namespace Accounted

variable {acquired : List G} {hold hold' : H → Option (ℕ × G)} {dropped : List (ℕ × G)}

theorem nil : Accounted ([] : List G) (fun _ : H => none) [] where
  held _ _ _ h := by simp at h
  once _ _ _ _ _ h := by simp at h
  gone _ _ h := by simp at h
  nodup := nodup_nil
  apart _ _ _ _ h := by simp at h
  kept _ h := by simp at h

section

variable (h : Accounted acquired hold dropped)
include h

theorem congr (he : ∀ x, hold' x = hold x) : Accounted acquired hold' dropped := by
  rwa [funext he]

theorem lt_length {x : H} {t : ℕ} {g : G} (hx : hold x = some (t, g)) : t < acquired.length :=
  (List.getElem?_eq_some_iff.1 (h.held x t g hx)).1

theorem gone_lt {t : ℕ} {g : G} (ht : (t, g) ∈ dropped) : t < acquired.length :=
  (List.getElem?_eq_some_iff.1 (h.gone t g ht)).1

/-- A holder of nothing takes a new reference. -/
theorem acquire {x : H} {g : G} (hx : hold x = none)
    (hx' : hold' x = some (acquired.length, g)) (he : ∀ y, y ≠ x → hold' y = hold y) :
    Accounted (acquired ++ [g]) hold' dropped where
  held y t g' hy := by
    by_cases hyx : y = x
    · rw [hyx, hx'] at hy
      obtain ⟨rfl, rfl⟩ : acquired.length = t ∧ g = g' := by simpa using hy
      simp
    · rw [he y hyx] at hy
      rw [List.getElem?_append_left (h.lt_length hy)]
      exact h.held y t g' hy
  once y z t g₁ g₂ hy hz := by
    have hnew : ∀ w t g', hold' w = some (t, g') → w ≠ x → t < acquired.length := by
      intro w t g' hw hwx
      rw [he w hwx] at hw
      exact h.lt_length hw
    by_cases hyx : y = x <;> by_cases hzx : z = x
    · rw [hyx, hzx]
    · rw [hyx, hx'] at hy
      have ht : acquired.length = t := (by simpa using hy : acquired.length = t ∧ g = g₁).1
      have := hnew z t g₂ hz hzx
      omega
    · rw [hzx, hx'] at hz
      have ht : acquired.length = t := (by simpa using hz : acquired.length = t ∧ g = g₂).1
      have := hnew y t g₁ hy hyx
      omega
    · rw [he y hyx] at hy
      rw [he z hzx] at hz
      exact h.once y z t g₁ g₂ hy hz
  gone t g' ht := by
    rw [List.getElem?_append_left (h.gone_lt ht)]
    exact h.gone t g' ht
  nodup := h.nodup
  apart y t g₁ g₂ hy ht := by
    by_cases hyx : y = x
    · rw [hyx, hx'] at hy
      have hl : acquired.length = t := (by simpa using hy : acquired.length = t ∧ g = g₁).1
      have := h.gone_lt ht
      omega
    · rw [he y hyx] at hy
      exact h.apart y t g₁ g₂ hy ht
  kept t ht := by
    by_cases htl : t = acquired.length
    · exact .inr ⟨x, g, by rw [hx', htl]⟩
    · rw [length_append, length_singleton] at ht
      rcases h.kept t (by omega) with hd | ⟨y, g', hy⟩
      · exact .inl hd
      · refine .inr ⟨y, g', ?_⟩
        rw [he y (fun hyx => by rw [hyx, hx] at hy; simp at hy)]
        exact hy

/-- A holder lets its reference go. -/
theorem drop {x : H} {t : ℕ} {g : G}
    (hx : hold x = some (t, g)) (hx' : hold' x = none) (he : ∀ y, y ≠ x → hold' y = hold y) :
    Accounted acquired hold' (dropped ++ [(t, g)]) where
  held y t' g' hy := by
    have hyx : y ≠ x := fun hyx => by rw [hyx, hx'] at hy; simp at hy
    rw [he y hyx] at hy
    exact h.held y t' g' hy
  once y z t' g₁ g₂ hy hz := by
    have hyx : y ≠ x := fun hyx => by rw [hyx, hx'] at hy; simp at hy
    have hzx : z ≠ x := fun hzx => by rw [hzx, hx'] at hz; simp at hz
    rw [he y hyx] at hy
    rw [he z hzx] at hz
    exact h.once y z t' g₁ g₂ hy hz
  gone t' g' ht := by
    rcases mem_append.1 ht with ht | ht
    · exact h.gone t' g' ht
    · obtain ⟨rfl, rfl⟩ : t' = t ∧ g' = g := by simpa using ht
      exact h.held x t' g' hx
  nodup := by
    rw [map_append, map_singleton, nodup_append]
    refine ⟨h.nodup, by simp, ?_⟩
    intro a ha b hb hab
    obtain ⟨⟨t', g'⟩, ht', hta⟩ := mem_map.1 ha
    have hb' : b = t := by simpa using hb
    have hta' : t' = t := by simpa [hab, hb'] using hta
    rw [hta'] at ht'
    exact h.apart x t g g' hx ht'
  apart y t' g₁ g₂ hy ht := by
    have hyx : y ≠ x := fun hyx => by rw [hyx, hx'] at hy; simp at hy
    rw [he y hyx] at hy
    rcases mem_append.1 ht with ht | ht
    · exact h.apart y t' g₁ g₂ hy ht
    · obtain ⟨rfl, rfl⟩ : t' = t ∧ g₂ = g := by simpa using ht
      exact hyx (h.once y x t' g₁ g₂ hy hx)
  kept t' ht' := by
    rcases h.kept t' ht' with ⟨g', hd⟩ | ⟨y, g', hy⟩
    · exact .inl ⟨g', mem_append_left _ hd⟩
    · by_cases hyx : y = x
      · rw [hyx, hx] at hy
        obtain ⟨rfl, rfl⟩ : t = t' ∧ g = g' := by simpa using hy
        exact .inl ⟨g, by simp⟩
      · exact .inr ⟨y, g', by rw [he y hyx]; exact hy⟩

/-- A reference goes from one holder to another, who held nothing. -/
theorem move {x y : H} {t : ℕ} {g : G}
    (hx : hold x = some (t, g)) (hy : hold y = none) (hx' : hold' x = none)
    (hy' : hold' y = some (t, g)) (he : ∀ z, z ≠ x → z ≠ y → hold' z = hold z) :
    Accounted acquired hold' dropped := by
  -- a reference held now was held before, by the old holder where the new one has it
  have hback : ∀ z t' g', hold' z = some (t', g') →
      z = y ∧ t' = t ∧ g' = g ∨ z ≠ x ∧ z ≠ y ∧ hold z = some (t', g') := by
    intro z t' g' hz
    by_cases hzy : z = y
    · rw [hzy, hy'] at hz
      obtain ⟨rfl, rfl⟩ : t = t' ∧ g = g' := by simpa using hz
      exact .inl ⟨hzy, rfl, rfl⟩
    · have hzx : z ≠ x := fun hzx => by rw [hzx, hx'] at hz; simp at hz
      rw [he z hzx hzy] at hz
      exact .inr ⟨hzx, hzy, hz⟩
  refine ⟨?_, ?_, h.gone, h.nodup, ?_, ?_⟩
  · intro z t' g' hz
    rcases hback z t' g' hz with ⟨-, rfl, rfl⟩ | ⟨-, -, hz⟩
    · exact h.held x t' g' hx
    · exact h.held z t' g' hz
  · intro z w t' g₁ g₂ hz hw
    rcases hback z t' g₁ hz with ⟨rfl, rfl, rfl⟩ | ⟨hzx, -, hz⟩ <;>
      rcases hback w t' g₂ hw with ⟨rfl, h1, rfl⟩ | ⟨hwx, -, hw⟩
    · rfl
    · exact absurd (h.once w x t' _ _ hw hx) hwx
    · subst h1
      exact absurd (h.once z x t' _ _ hz hx) hzx
    · exact h.once z w t' g₁ g₂ hz hw
  · intro z t' g₁ g₂ hz
    rcases hback z t' g₁ hz with ⟨-, rfl, rfl⟩ | ⟨-, -, hz⟩
    · exact h.apart x t' g₁ g₂ hx
    · exact h.apart z t' g₁ g₂ hz
  · intro t' ht'
    rcases h.kept t' ht' with hd | ⟨z, g', hz⟩
    · exact .inl hd
    · by_cases hzx : z = x
      · rw [hzx, hx] at hz
        obtain ⟨rfl, rfl⟩ : t = t' ∧ g = g' := by simpa using hz
        exact .inr ⟨y, g, hy'⟩
      · have hzy : z ≠ y := fun hzy => by rw [hzy, hy] at hz; simp at hz
        exact .inr ⟨z, g', by rw [he z hzx hzy]; exact hz⟩

/-- A new reference is dropped at once. -/
theorem lose (g : G) : Accounted (acquired ++ [g]) hold (dropped ++ [(acquired.length, g)]) where
  held x t g' hx := by
    rw [List.getElem?_append_left (h.lt_length hx)]
    exact h.held x t g' hx
  once := h.once
  gone t g' ht := by
    rcases mem_append.1 ht with ht | ht
    · rw [List.getElem?_append_left (h.gone_lt ht)]
      exact h.gone t g' ht
    · obtain ⟨rfl, rfl⟩ : t = acquired.length ∧ g' = g := by simpa using ht
      simp
  nodup := by
    rw [map_append, map_singleton, nodup_append]
    refine ⟨h.nodup, by simp, ?_⟩
    intro a ha b hb hab
    obtain ⟨⟨t', g'⟩, ht', hta⟩ := mem_map.1 ha
    have hb' : b = acquired.length := by simpa using hb
    have hlt := h.gone_lt ht'
    have hta' : t' = a := hta
    omega
  apart x t g₁ g₂ hx ht := by
    rcases mem_append.1 ht with ht | ht
    · exact h.apart x t g₁ g₂ hx ht
    · have hl : t = acquired.length := (by simpa using ht : t = acquired.length ∧ g₂ = g).1
      have := h.lt_length hx
      omega
  kept t ht := by
    by_cases htl : t = acquired.length
    · exact .inl ⟨g, by simp [htl]⟩
    · rw [length_append, length_singleton] at ht
      rcases h.kept t (by omega) with ⟨g', hd⟩ | hk
      · exact .inl ⟨g', mem_append_left _ hd⟩
      · exact .inr hk

end

end Accounted

end Astra
