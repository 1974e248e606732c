import AstraKernel.Proofs.HandleRefs

/-!
# Authority never grows

A right is a bit of an entry's rights. What any entry carries was granted by an install, and a
right comes into a table that lacked it from an install, from a clone, or from an entry that
carried TRANSFER.
-/

namespace Astra

open HandleState

def RightsWithin (a b : HandleRights) : Prop :=
  ∀ k, a.getLsbD k = true → b.getLsbD k = true

theorem rightsWithin_of_and_not {a b : HandleRights} (h : a &&& ~~~b = 0) : RightsWithin a b := by
  intro k hk
  have hb := congrArg (fun x : HandleRights => x.getLsbD k) h
  have hlt : k < 32 := BitVec.lt_of_getLsbD hk
  simpa [hk, hlt] using hb

theorem rightsWithin_and (a mask : HandleRights) : RightsWithin (a &&& mask) a := by
  intro k hk
  have h : a.getLsbD k = true ∧ mask.getLsbD k = true := by simpa using hk
  exact h.1

/-- Table `τ` holds the right `k` on the object `o`. -/
def HandleView.HoldsRight (v : HandleView) (τ o k : ℕ) : Prop :=
  ∃ i, (v.entry τ i).holds ∧ (v.entry τ i).object = o ∧ (v.entry τ i).rights.getLsbD k = true

/-- A detached entry, reserved or live, carries the right. -/
def HandleView.CarriesRight (v : HandleView) (o k : ℕ) : Prop :=
  ∃ d e, v.detached d = some e ∧ e.state ≠ .free ∧ e.object = o ∧ e.rights.getLsbD k = true

/-- An open entry of some table carries the right together with TRANSFER. -/
def HandleView.Transferable (v : HandleView) (o k : ℕ) : Prop :=
  ∃ σ j, (v.entry σ j).occupied = true ∧ (v.entry σ j).object = o ∧
    (v.entry σ j).rights.getLsbD k = true ∧ (v.entry σ j).rights.getLsbD 5 = true

theorem transfer_bit {rights : HandleRights} (h : rights &&& handleRightTransfer ≠ 0) :
    rights.getLsbD 5 = true := by
  by_contra hb
  have hb' : rights.getLsbD 5 = false := by simpa using hb
  refine h (BitVec.eq_of_getLsbD_eq fun k hk => ?_)
  rw [show handleRightTransfer = BitVec.twoPow 32 5 from rfl, BitVec.getLsbD_and,
    BitVec.getLsbD_twoPow]
  by_cases hk5 : 5 = k
  · rw [← hk5, hb']
    rfl
  · simp [hk5]

variable {F : KernelHandleImportRights} {s₀ : HandleState} {ev : HandleEvent}

/-- Where a right that a table did not hold before the event may have come from: the event
installs it, clones a table that holds it, copies an entry that carries TRANSFER, or imports it from
a live detached entry. -/
inductive RightComes (s : HandleState) (ev : HandleEvent) (τ o k : ℕ) : Prop
  | installed (rights : HandleRights) : ev.Installs τ o rights → rights.getLsbD k = true →
    RightComes s ev τ o k
  | cloned (σ : ℕ) (grants : ℕ → SlotGrant) : ev = .call (.cloneTable σ τ grants) →
    s.view.HoldsRight σ o k → RightComes s ev τ o k
  | copied (σ : ℕ) (rights : HandleRights) : ev.Duplicates σ τ rights →
    s.view.Transferable o k → RightComes s ev τ o k
  | imported (r : ℕ) (hs : List ℕ) : ev = .call (.importCommit τ r hs) →
    (∃ d e, s.detachedEntryAt d = some e ∧ e.state = .live ∧ e.object = o ∧
      e.rights.getLsbD k = true) → RightComes s ev τ o k

variable {v v' : HandleView} {k o τ : ℕ}

theorem holdsRight_setEntry {i τ' : ℕ} {e : KernelHandleEntry}
    (h : (v.setEntry τ i e).HoldsRight τ' o k) : v.HoldsRight τ' o k ∨
      τ' = τ ∧ e.holds ∧ e.object = o ∧ e.rights.getLsbD k = true := by
  obtain ⟨j, hj⟩ := h
  rw [HandleView.setEntry_entry] at hj
  split_ifs at hj with hij
  · exact .inr ⟨hij.1, hj⟩
  · exact .inl ⟨j, hj⟩

theorem holdsRight_update (hF : ∀ type object rights, F type object rights &&& ~~~rights = 0)
    (hu : HandleUpdate F s₀ ev v v') (h : v'.HoldsRight τ o k) :
    v.HoldsRight τ o k ∨ RightComes s₀ ev τ o k := by
  cases hu with
  | claimed τ' i => exact .inl h
  | freed τ' i => exact .inl h
  | idle τ' i e hn hn' =>
    exact .inl ((holdsRight_setEntry h).resolve_right fun hr => hn' hr.2.1)
  | adopted σ τ' i grants e hev hfr ho hr =>
    refine .inl ((holdsRight_setEntry h).resolve_right fun hr' => ?_)
    simpa [KernelHandleEntry.holds, ho, hr] using hr'.2.1
  | installed τ' i e hev =>
    rcases holdsRight_setEntry h with h | ⟨rfl, -, hobj, hk⟩
    · exact .inl h
    · exact .inr (.installed e.rights (hobj ▸ hev) hk)
  | copied σ j τ' i e hev hs hso htr hsub hobj =>
    rcases holdsRight_setEntry h with h | ⟨rfl, -, ho, hk⟩
    · exact .inl h
    · rw [hs] at hso htr hsub hobj
      exact .inr (.copied σ e.rights hev ⟨σ, j, hso, hobj ▸ ho,
        rightsWithin_of_and_not hsub k hk, transfer_bit htr⟩)
  | cloned σ τ' i grants e hev hfr hf hs hs' ho =>
    rcases holdsRight_setEntry h with h | ⟨rfl, -, hobj, hk⟩
    · exact .inl h
    · refine .inr (.cloned σ grants hev ⟨i, ?_⟩)
      rw [view_entry, hs']
      exact ⟨.inl ho, hobj, hk⟩
  | lost g => exact .inl h
  | marked τ' i hev ho =>
    rcases holdsRight_setEntry h with h | ⟨rfl, -, hobj, hk⟩
    · exact .inl h
    · exact .inl ⟨i, .inl ho, hobj, hk⟩
  | retired τ' i =>
    refine .inl ((holdsRight_setEntry h).resolve_right fun hr => ?_)
    simpa [KernelHandleEntry.holds, KernelHandleEntry.retired, freeHandleEntry] using hr.2.1
  | context τ' i c ho =>
    rcases holdsRight_setEntry h with h | ⟨rfl, -, hobj, hk⟩
    · exact .inl h
    · exact .inl ⟨i, .inl ho, hobj, hk⟩
  | exported τ' i d e =>
    refine .inl ((holdsRight_setEntry h).resolve_right fun hr => ?_)
    simpa [KernelHandleEntry.holds, KernelHandleEntry.retired, freeHandleEntry] using hr.2.1
  | imported d τ' i r g hs e e' hev hn hf hd hd' hst hp hg href ho hres hr hgen hri =>
    rcases holdsRight_setEntry h with h | ⟨rfl, -, hobj, hk⟩
    · exact .inl h
    · have hobj' : e'.object = e.object := congrArg HandleGrant.object hg
      rw [hri] at hk
      exact .inr (.imported r hs hev ⟨d, e, hd', hst, hobj' ▸ hobj,
        rightsWithin_of_and_not (hF _ _ _) k hk⟩)
  | backed detached => exact .inl h
  | prepared τ' i d e e' => exact .inl h
  | narrowed d e mask => exact .inl h
  | unprepared d g e => exact .inl h
  | released d g e => exact .inl h
  | interrupted f => exact .inl h
  | returned f fs => exact .inl h
  | reserved r reservation => exact .inl h

theorem carriesRight_setDetached {d : ℕ} {e : KernelDetachedEntry}
    (h : (v.setDetached d e).CarriesRight o k) : v.CarriesRight o k ∨
      e.state ≠ .free ∧ e.object = o ∧ e.rights.getLsbD k = true := by
  obtain ⟨d', e', hd', he'⟩ := h
  rw [HandleView.setDetached_at] at hd'
  split_ifs at hd' with hdd
  · cases hd'
    exact .inr he'
  · exact .inl ⟨d', e', hd', he'⟩

theorem carriesRight_update (hu : HandleUpdate F s₀ ev v v')
    (h : v'.CarriesRight o k) : v.CarriesRight o k ∨ s₀.view.Transferable o k := by
  cases hu with
  | claimed τ i => exact .inl h
  | freed τ i => exact .inl h
  | idle τ i e => exact .inl h
  | adopted σ τ i grants e => exact .inl h
  | installed τ i e => exact .inl h
  | copied σ j τ i e => exact .inl h
  | cloned σ τ i grants e => exact .inl h
  | lost g => exact .inl h
  | marked τ i => exact .inl h
  | retired τ i => exact .inl h
  | context τ i c => exact .inl h
  | exported τ i d e ho hd hst =>
    rcases carriesRight_setDetached h with h | ⟨-, hobj, hk⟩
    · exact .inl h
    · exact .inl ⟨d, e, hd, by simp [hst], hobj, hk⟩
  | imported d τ i r g hs e e' =>
    exact .inl ((carriesRight_setDetached h).resolve_right fun hr => hr.1 rfl)
  | backed detached hkeep hnew =>
    obtain ⟨d, e, hd, hst, he⟩ := h
    rcases hv : v.detached d with _ | e'
    · exact absurd (hnew d e hv hd) hst
    · obtain rfl : e' = e := by
        have hd' := hkeep d e' hv
        exact Option.some.inj (hd'.symm.trans hd)
      exact .inl ⟨d, e', hv, hst, he⟩
  | prepared τ i d e e' ho hs htr hd hst hst' hg hrel hri =>
    rcases carriesRight_setDetached h with h | ⟨-, hobj, hk⟩
    · exact .inl h
    · have hobj' : e'.object = (v.entry τ i).object := congrArg HandleGrant.object hg
      rw [hri] at hk
      rw [hobj'] at hobj
      rw [hs] at ho htr hobj hk
      refine .inr ⟨τ, i, ho, hobj, hk, transfer_bit (htr.trans_ne ?_)⟩
      decide
  | narrowed d e mask hd hst =>
    rcases carriesRight_setDetached h with h | ⟨-, hobj, hk⟩
    · exact .inl h
    · exact .inl ⟨d, e, hd, by simp [hst], hobj, rightsWithin_and _ _ k hk⟩
  | unprepared d g e => exact .inl ((carriesRight_setDetached h).resolve_right fun hr => hr.1 rfl)
  | released d g e => exact .inl ((carriesRight_setDetached h).resolve_right fun hr => hr.1 rfl)
  | interrupted f => exact .inl h
  | returned f fs => exact .inl h
  | reserved r reservation => exact .inl h

/-- A table entry or a detached entry has the right `k` on the object `o`. -/
def HandleView.HasRight (v : HandleView) (o k : ℕ) : Prop :=
  (∃ τ, v.HoldsRight τ o k) ∨ v.CarriesRight o k

/-- The event is an install that succeeds and grants the right. -/
def HandleEvent.Grants (ev : HandleEvent) (F : KernelHandleImportRights) (s : HandleState)
    (o k : ℕ) : Prop :=
  ∃ τ rights, ev.Installs τ o rights ∧ rights.getLsbD k = true ∧ ev.Succeeds F s

theorem hasRight_update (hF : ∀ type object rights, F type object rights &&& ~~~rights = 0)
    (hu : HandleUpdate F s₀ ev v v') (h : v'.HasRight o k) :
    v.HasRight o k ∨ ev.Grants F s₀ o k := by
  have hdet : v'.entry = v.entry → v'.detached = v.detached → v.HasRight o k := by
    intro he hd
    rcases h with ⟨τ, i, hi⟩ | ⟨d, e, hde, he'⟩
    · exact .inl ⟨τ, i, he ▸ hi⟩
    · exact .inr ⟨d, e, hd ▸ hde, he'⟩
  cases hu with
  | claimed τ i => exact .inl (hdet rfl rfl)
  | freed τ i => exact .inl (hdet rfl rfl)
  | idle τ i e hn hn' =>
    rcases h with ⟨τ', h⟩ | h
    · exact .inl (.inl ⟨τ', (holdsRight_setEntry h).resolve_right fun hr => hn' hr.2.1⟩)
    · exact .inl (.inr h)
  | adopted σ τ i grants e hev hfr ho hr =>
    rcases h with ⟨τ', h⟩ | h
    · refine .inl (.inl ⟨τ', (holdsRight_setEntry h).resolve_right fun hr' => ?_⟩)
      simpa [KernelHandleEntry.holds, ho, hr] using hr'.2.1
    · exact .inl (.inr h)
  | installed τ i e hev hok =>
    rcases h with ⟨τ', h⟩ | h
    · rcases holdsRight_setEntry h with h | ⟨rfl, -, hobj, hk⟩
      · exact .inl (.inl ⟨τ', h⟩)
      · exact .inr ⟨τ', e.rights, hobj ▸ hev, hk, hok⟩
    · exact .inl (.inr h)
  | copied σ j τ i e hev hs hso htr hsub hobj =>
    rcases h with ⟨τ', h⟩ | h
    · rcases holdsRight_setEntry h with h | ⟨rfl, -, ho, hk⟩
      · exact .inl (.inl ⟨τ', h⟩)
      · exact .inl (.inl ⟨σ, j, .inl hso, hobj ▸ ho, rightsWithin_of_and_not hsub k hk⟩)
    · exact .inl (.inr h)
  | cloned σ τ i grants e hev hfr hf hs hs' ho =>
    rcases h with ⟨τ', h⟩ | h
    · rcases holdsRight_setEntry h with h | ⟨rfl, -, hobj, hk⟩
      · exact .inl (.inl ⟨τ', h⟩)
      · exact .inl (.inl ⟨σ, i, by rw [hs]; exact ⟨.inl ho, hobj, hk⟩⟩)
    · exact .inl (.inr h)
  | lost g => exact .inl (hdet rfl rfl)
  | marked τ i hev ho =>
    rcases h with ⟨τ', h⟩ | h
    · rcases holdsRight_setEntry h with h | ⟨rfl, -, hobj, hk⟩
      · exact .inl (.inl ⟨τ', h⟩)
      · exact .inl (.inl ⟨τ', i, .inl ho, hobj, hk⟩)
    · exact .inl (.inr h)
  | retired τ i =>
    rcases h with ⟨τ', h⟩ | h
    · refine .inl (.inl ⟨τ', (holdsRight_setEntry h).resolve_right fun hr => ?_⟩)
      simpa [KernelHandleEntry.holds, KernelHandleEntry.retired, freeHandleEntry] using hr.2.1
    · exact .inl (.inr h)
  | context τ i c ho =>
    rcases h with ⟨τ', h⟩ | h
    · rcases holdsRight_setEntry h with h | ⟨rfl, -, hobj, hk⟩
      · exact .inl (.inl ⟨τ', h⟩)
      · exact .inl (.inl ⟨τ', i, .inl ho, hobj, hk⟩)
    · exact .inl (.inr h)
  | exported τ i d e ho hd hst =>
    rcases h with ⟨τ', h⟩ | h
    · refine .inl (.inl ⟨τ', (holdsRight_setEntry h).resolve_right fun hr => ?_⟩)
      simpa [KernelHandleEntry.holds, KernelHandleEntry.retired, freeHandleEntry] using hr.2.1
    · rcases carriesRight_setDetached h with h | ⟨-, hobj, hk⟩
      · exact .inl (.inr h)
      · exact .inl (.inr ⟨d, e, hd, by simp [hst], hobj, hk⟩)
  | imported d τ i r g hs e e' hev hn hf hd hd' hst hp hg href ho hres hr hgen hri =>
    rcases h with ⟨τ', h⟩ | h
    · rcases holdsRight_setEntry h with h | ⟨rfl, -, hobj, hk⟩
      · exact .inl (.inl ⟨τ', h⟩)
      · have hobj' : e'.object = e.object := congrArg HandleGrant.object hg
        rw [hri] at hk
        exact .inl (.inr ⟨d, e, hd, by simp [hst], hobj' ▸ hobj,
          rightsWithin_of_and_not (hF _ _ _) k hk⟩)
    · exact .inl (.inr ((carriesRight_setDetached h).resolve_right fun hr => hr.1 rfl))
  | backed detached hkeep hnew =>
    rcases h with h | ⟨d, e, hd, hst, he⟩
    · exact .inl (.inl h)
    · rcases hv : v.detached d with _ | e'
      · exact absurd (hnew d e hv hd) hst
      · obtain rfl : e' = e := by
          have hd' := hkeep d e' hv
          exact Option.some.inj (hd'.symm.trans hd)
        exact .inl (.inr ⟨d, e', hv, hst, he⟩)
  | prepared τ i d e e' ho hs htr hd hst hst' hg hrel hri =>
    rcases h with h | h
    · exact .inl (.inl h)
    · rcases carriesRight_setDetached h with h | ⟨-, hobj, hk⟩
      · exact .inl (.inr h)
      · have hobj' : e'.object = (v.entry τ i).object := congrArg HandleGrant.object hg
        rw [hri] at hk
        exact .inl (.inl ⟨τ, i, .inl ho, hobj' ▸ hobj, hk⟩)
  | narrowed d e mask hd hst =>
    rcases h with h | h
    · exact .inl (.inl h)
    · rcases carriesRight_setDetached h with h | ⟨-, hobj, hk⟩
      · exact .inl (.inr h)
      · exact .inl (.inr ⟨d, e, hd, by simp [hst], hobj, rightsWithin_and _ _ k hk⟩)
  | unprepared d g e =>
    rcases h with h | h
    · exact .inl (.inl h)
    · exact .inl (.inr ((carriesRight_setDetached h).resolve_right fun hr => hr.1 rfl))
  | released d g e =>
    rcases h with h | h
    · exact .inl (.inl h)
    · exact .inl (.inr ((carriesRight_setDetached h).resolve_right fun hr => hr.1 rfl))
  | interrupted f => exact .inl (hdet rfl rfl)
  | returned f fs => exact .inl (hdet rfl rfl)
  | reserved r reservation => exact .inl (hdet rfl rfl)

section runs

variable {v v' : HandleView} {evs : List HandleEvent} {k o : ℕ}

theorem holdsRight_updates (hF : ∀ type object rights, F type object rights &&& ~~~rights = 0)
    (hu : HandleUpdates F s₀ ev v v') {τ : ℕ} (h : v'.HoldsRight τ o k) :
    v.HoldsRight τ o k ∨ RightComes s₀ ev τ o k := by
  induction hu with
  | refl => exact .inl h
  | tail _ hu ih =>
    rcases holdsRight_update hF hu h with h | h
    · exact ih h
    · exact .inr h

theorem carriesRight_updates (hu : HandleUpdates F s₀ ev v v')
    (h : v'.CarriesRight o k) : v.CarriesRight o k ∨ s₀.view.Transferable o k := by
  induction hu with
  | refl => exact .inl h
  | tail _ hu ih =>
    rcases carriesRight_update hu h with h | h
    · exact ih h
    · exact .inr h

theorem hasRight_updates (hF : ∀ type object rights, F type object rights &&& ~~~rights = 0)
    (hu : HandleUpdates F s₀ ev v v') (h : v'.HasRight o k) :
    v.HasRight o k ∨ ev.Grants F s₀ o k := by
  induction hu with
  | refl => exact .inl h
  | tail _ hu ih =>
    rcases hasRight_update hF hu h with h | h
    · exact ih h
    · exact .inr h

theorem step_of_run {ev : HandleEvent} (h : HandleRun F (evs ++ [ev])) :
    HandleRun F evs ∧ HandleUpdates F (handlesAfter F evs) ev (handlesAfter F evs).view
      (handlesAfter F (evs ++ [ev])).view := by
  obtain ⟨h1, hev, -⟩ := (HandleState.Along.append F).1 h
  rw [handlesAfter_append]
  exact ⟨h1, step_updates (run_handleSound h1) hev⟩

theorem run_granted (hF : ∀ type object rights, F type object rights &&& ~~~rights = 0)
    (h : HandleRun F evs)
    (hk : (handlesAfter F evs).view.HasRight o k) :
    ∃ before ev after, evs = before ++ ev :: after ∧ ev.Grants F (handlesAfter F before) o k := by
  induction evs using List.reverseRecOn with
  | nil =>
    rcases hk with ⟨τ, i, hh, -⟩ | ⟨d, e, hd, -⟩
    · simp [handlesAfter, HandleState.run, kernelHandleTransferPoolInit, HandleState.entry,
        kernelHandleTableInit, freeHandleEntry, KernelHandleEntry.holds] at hh
    · simp [handlesAfter, HandleState.run, kernelHandleTransferPoolInit, detachedEntryAt] at hd
  | append_singleton evs ev ih =>
    obtain ⟨h1, hu⟩ := step_of_run h
    rcases hasRight_updates hF hu hk with hk | hg
    · obtain ⟨before, ev', after, rfl, hg⟩ := ih h1 hk
      exact ⟨before, ev', after ++ [ev], by simp, hg⟩
    · exact ⟨evs, ev, [], rfl, hg⟩

theorem run_carried (h : HandleRun F evs) (hk : (handlesAfter F evs).view.CarriesRight o k) :
    ∃ before after, evs = before ++ after ∧ (handlesAfter F before).view.Transferable o k := by
  induction evs using List.reverseRecOn with
  | nil =>
    obtain ⟨d, e, hd, -⟩ := hk
    simp [handlesAfter, HandleState.run, kernelHandleTransferPoolInit, detachedEntryAt] at hd
  | append_singleton evs ev ih =>
    obtain ⟨h1, hu⟩ := step_of_run h
    rcases carriesRight_updates hu hk with hk | ht
    · obtain ⟨before, after, rfl, ht⟩ := ih h1 hk
      exact ⟨before, after ++ [ev], by simp, ht⟩
    · exact ⟨evs, [ev], rfl, ht⟩

/-- A right that a table holds after an event and did not hold before it was installed into it by
the event, or cloned from a table that held it, or stood in an open entry that carried TRANSFER:
now, where the event copies it, or earlier in the run, where the event imports it. -/
def RightReceived (F : KernelHandleImportRights) (evs : List HandleEvent) (ev : HandleEvent)
    (τ o k : ℕ) : Prop :=
  (∃ rights, ev.Installs τ o rights ∧ rights.getLsbD k = true) ∨
    (∃ σ grants, ev = .call (.cloneTable σ τ grants) ∧
      (handlesAfter F evs).view.HoldsRight σ o k) ∨
    (∃ σ rights, ev.Duplicates σ τ rights ∧ (handlesAfter F evs).view.Transferable o k) ∨
    ∃ r hs, ev = .call (.importCommit τ r hs) ∧
      ∃ before after, evs = before ++ after ∧ (handlesAfter F before).view.Transferable o k

end runs

end Astra
