import Mathlib.Order.Lattice

/-!
# Counted loops that may go wrong

A step that reads or writes outside its memory has no result. `Yields` says that a run has a result,
and which; the rules for it take a run apart as the code composes it, and a counted loop by an
invariant of its counter.
-/

namespace Astra

variable {σ τ : Type}

/-- The run has a result, and the result has the property. -/
def Yields (o : Option σ) (Q : σ → Prop) : Prop := ∃ s, o = some s ∧ Q s

namespace Yields

variable {o : Option σ} {s : σ} {P Q : σ → Prop}

theorem done (hQ : Q s) : Yields (some s) Q := ⟨s, rfl, hQ⟩

theorem mono (h : Yields o P) (hPQ : ∀ s, P s → Q s) : Yields o Q := by
  obtain ⟨s, hs, hP⟩ := h
  exact ⟨s, hs, hPQ s hP⟩

theorem bind {f : σ → Option τ} {R : τ → Prop} (h : Yields o P) (hf : ∀ s, P s → Yields (f s) R) :
    Yields (o >>= f) R := by
  obtain ⟨s, rfl, hP⟩ := h
  exact hf s hP

/-- Two steps that have been stated as one. -/
theorem bind₂ {υ : Type} {f : σ → Option τ} {g : τ → Option υ} {P : τ → Prop} {R : υ → Prop}
    (h : Yields (o >>= f) P) (hg : ∀ s, P s → Yields (g s) R) :
    Yields (o >>= fun s => f s >>= g) R := by
  rw [← bind_assoc]
  exact h.bind hg

theorem of_some (h : Yields o Q) (hs : o = some s) : Q s := by
  obtain ⟨s', hs', hQ⟩ := h
  rw [hs] at hs'
  cases hs'
  exact hQ

theorem ite {c : Prop} [Decidable c] {o' : Option σ} (h : c → Yields o Q) (h' : ¬c → Yields o' Q) :
    Yields (if c then o else o') Q := by
  split
  · rename_i hc
    exact h hc
  · rename_i hc
    exact h' hc

end Yields

def countUp (body : ℕ → σ → Option σ) : ℕ → ℕ → σ → Option σ
  | 0, _, s => some s
  | n + 1, i, s => body i s >>= countUp body n (i + 1)

def countDown (body : ℕ → σ → Option σ) (first : ℕ) : ℕ → σ → Option σ
  | 0, s => some s
  | n + 1, s => body (first + n) s >>= countDown body first n

/-- `for (i = first; i < last; ++i)`. -/
def forUp (first last : ℕ) (body : ℕ → σ → Option σ) : σ → Option σ :=
  countUp body (last - first) first

/-- `for (i = last; i-- > first;)`. -/
def forDown (first last : ℕ) (body : ℕ → σ → Option σ) : σ → Option σ :=
  countDown body first (last - first)

section rules

variable {body : ℕ → σ → Option σ} {P : ℕ → σ → Prop} {first last : ℕ} {s : σ}

theorem yields_countUp : ∀ {n first : ℕ} {s : σ}, P first s →
    (∀ i s, first ≤ i → i < first + n → P i s → Yields (body i s) (P (i + 1))) →
    Yields (countUp body n first s) (P (first + n))
  | 0, first, s, h, _ => Yields.done h
  | n + 1, first, s, h, hstep => by
    rw [show first + (n + 1) = first + 1 + n by omega]
    refine (hstep first s le_rfl (by omega) h).bind fun s' hs' => ?_
    exact yields_countUp hs' fun i s hi hlt => hstep i s (by omega) (by omega)

/-- What the body carries from each value of the counter to the next holds after the loop. -/
theorem yields_forUp (hle : first ≤ last) (h : P first s)
    (hstep : ∀ i s, first ≤ i → i < last → P i s → Yields (body i s) (P (i + 1))) :
    Yields (forUp first last body s) (P last) := by
  have := yields_countUp (n := last - first) h fun i s hi hlt => hstep i s hi (by omega)
  rwa [show first + (last - first) = last by omega] at this

theorem yields_countDown : ∀ {n : ℕ} {s : σ}, P (first + n) s →
    (∀ i s, first ≤ i → i < first + n → P (i + 1) s → Yields (body i s) (P i)) →
    Yields (countDown body first n s) (P first)
  | 0, s, h, _ => Yields.done h
  | n + 1, s, h, hstep => by
    refine (hstep (first + n) s (by omega) (by omega) h).bind fun s' hs' => ?_
    exact yields_countDown hs' fun i s hi hlt => hstep i s hi (by omega)

theorem yields_forDown (hle : first ≤ last) (h : P last s)
    (hstep : ∀ i s, first ≤ i → i < last → P (i + 1) s → Yields (body i s) (P i)) :
    Yields (forDown first last body s) (P first) := by
  refine yields_countDown ?_ fun i s hi hlt => hstep i s hi (by omega)
  rwa [show first + (last - first) = last by omega]

/-- A property that does not depend on the counter. -/
theorem yields_forUp_const {Q : σ → Prop} (h : Q s)
    (hstep : ∀ i s, first ≤ i → i < last → Q s → Yields (body i s) Q) :
    Yields (forUp first last body s) Q := by
  rcases Nat.lt_or_ge last first with hlt | hle
  · rw [forUp, show last - first = 0 by omega]
    exact Yields.done h
  · exact yields_forUp (P := fun _ => Q) hle h hstep

end rules

end Astra
