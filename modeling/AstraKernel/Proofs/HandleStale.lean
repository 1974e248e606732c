import AstraKernel.Proofs.HandleRefs

/-!
# A handle value that was given up stays dead

A slot's generation is one more than its retirements, up to a wrap. A value names the slot at one
count of retirements; once its entry is closed or exported, the slot is past that count, or marked
for a close that takes it past, and stays so, also in every clone.
-/

namespace Astra

open HandleState List

def PastUse (e : KernelHandleEntry) (r : ℕ) : Prop :=
  r < e.retirements ∨ e.retirements = r ∧ e.occupied = false ∧ e.reserved = .closing

def InUse (e : KernelHandleEntry) (r : ℕ) : Prop :=
  r ≤ e.retirements ∧ (e.retirements = r → e.holds)

variable {F : KernelHandleImportRights} {s₀ : HandleState} {ev : HandleEvent}

variable {s : HandleState} {v v' : HandleView} {P : KernelHandleEntry → Prop} {h i r τ : ℕ}

theorem setEntry_at {τ' j : ℕ}
    {e : KernelHandleEntry} (h : P (v.entry τ i)) (he : P (v.entry τ' j) → P e) :
    P ((v.setEntry τ' j e).entry τ i) := by
  rw [HandleView.setEntry_entry]
  split_ifs with hij
  · rw [hij.1, hij.2] at h
    exact he h
  · exact h

section

variable (hu : HandleUpdate F s₀ ev v v')
include hu

theorem entry_update (τ i : ℕ) (h : P (v.entry τ i))
    (hidle : ∀ e e' : KernelHandleEntry, ¬ e.holds → e'.retirements = e.retirements → P e → P e')
    (hfresh : ¬ P freeHandleEntry)
    (hmark : ∀ e : KernelHandleEntry, e.occupied = true → P e →
      P { e with occupied := false, reserved := .closing })
    (hretire : ∀ e : KernelHandleEntry, P e → P e.retired)
    (hcontext : ∀ (e : KernelHandleEntry) (c : ℕ), P e → P { e with releaseContext := c }) :
    P (v'.entry τ i) := by
  cases hu with
  | claimed τ' j => exact h
  | freed τ' j => exact h
  | idle τ' j e hn hn' hf hr => exact setEntry_at h (hidle _ e hn hr)
  | adopted σ τ' j grants e hev hfr =>
    exact setEntry_at h fun hp => absurd (hfr ▸ hp) hfresh
  | installed τ' j e hev hok hn hf ho hres href hr => exact setEntry_at h (hidle _ e hn hr)
  | copied σ k τ' j e hev hs hso htr hsub hobj hn hf ho hres href hr =>
    exact setEntry_at h (hidle _ e hn hr)
  | cloned σ τ' j grants e hev hfr =>
    exact setEntry_at h fun hp => absurd (hfr ▸ hp) hfresh
  | lost g => exact h
  | marked τ' j hev ho => exact setEntry_at h (hmark _ ho)
  | retired τ' j => exact setEntry_at h (hretire _)
  | context τ' j c ho => exact setEntry_at h (hcontext _ c)
  | exported τ' j d e => exact setEntry_at h (hretire _)
  | imported d τ' j r g hs e e' hev hn hf hd hd' hst hp hg href ho hres hr =>
    exact setEntry_at h (hidle _ e' hn hr)
  | backed detached => exact h
  | prepared τ' j d e e' => exact h
  | narrowed d e mask => exact h
  | unprepared d g e => exact h
  | released d g e => exact h
  | interrupted f => exact h
  | returned f fs => exact h
  | reserved r reservation => exact h

theorem pastUse_update (h : PastUse (v.entry τ i) r) : PastUse (v'.entry τ i) r := by
  refine entry_update (P := fun e => PastUse e r) hu τ i h ?_ ?_ ?_ ?_ fun _ _ h => h
  · intro e e' hn hr hp
    rcases hp with hp | ⟨-, -, hcl⟩
    · exact .inl (by omega)
    · exact absurd (.inr hcl) hn
  · simp [PastUse, freeHandleEntry]
  · intro e ho hp
    rcases hp with hp | ⟨-, ho', -⟩
    · exact .inl hp
    · simp [ho] at ho'
  · intro e hp
    refine .inl ?_
    show r < e.retirements + 1
    rcases hp with hp | ⟨hp, -, -⟩ <;> omega

theorem inUse_update (h : InUse (v.entry τ i) r) : InUse (v'.entry τ i) r := by
  refine entry_update (P := fun e => InUse e r) hu τ i h ?_ ?_ ?_ ?_ fun _ _ h => h
  · intro e e' hn hr hp
    obtain ⟨hle, hh⟩ := hp
    refine ⟨by omega, fun he => absurd (hh (by omega)) hn⟩
  · intro hp
    have h0 : r = 0 := Nat.le_zero.1 hp.1
    simpa [KernelHandleEntry.holds, freeHandleEntry] using hp.2 h0.symm
  · intro e ho hp
    exact ⟨hp.1, fun _ => .inr rfl⟩
  · intro e hp
    have hle := hp.1
    refine ⟨?_, fun he => ?_⟩
    · show r ≤ e.retirements + 1
      omega
    · have : e.retirements + 1 = r := he
      omega

end

/-- The handle names an entry of the table: `find_entry` finds it. -/
def Resolves (s : HandleState) (τ h : ℕ) : Prop := ∃ i, findEntry s τ h = .ok i

theorem findEntry_of (hi : i < kernelHandleMaxEntries)
    (ho : (s.entry τ i).occupied = true) (hr : (s.entry τ i).reserved = .none)
    (hf : s.slotFree τ i = false) (hg : (s.entry τ i).generation ≠ 0) :
    findEntry s τ (makeHandle i (s.entry τ i).generation) = .ok i := by
  have hi' : i < 255 := hi
  have h1 : makeHandle i (s.entry τ i).generation % 256 = i + 1 := by
    unfold makeHandle
    omega
  have h2 : makeHandle i (s.entry τ i).generation / 256 = (s.entry τ i).generation := by
    unfold makeHandle
    omega
  unfold findEntry
  simp only [h1, h2, Nat.add_sub_cancel]
  rw [if_neg (by simp [kernelHandleMaxEntries]; omega), if_neg (by simp [hf]),
    if_neg (by simp [ho, hr])]

section

variable (hs : HandleSound s.view)
include hs

theorem pastUse_of_not_resolves (hi : i < kernelHandleMaxEntries) (h : InUse (s.entry τ i) r)
    (hn : ¬ Resolves s τ (makeHandle i (1 + r % kernelHandleGenerationMask))) :
    PastUse (s.entry τ i) r := by
  have he := hs.entries τ i
  rcases Nat.lt_or_eq_of_le h.1 with hlt | heq
  · exact .inl hlt
  · right
    have hg : (s.entry τ i).generation = 1 + r % kernelHandleGenerationMask := by
      rw [heq]
      exact he.generation
    by_cases ho : (s.entry τ i).occupied = true
    · refine absurd ⟨i, ?_⟩ hn
      rw [← hg]
      refine findEntry_of hi ho (he.plain ho) ?_ (by rw [hg]; omega)
      by_contra hf
      have := (he.free (by simpa using hf)).1
      simp [ho] at this
    · exact ⟨heq.symm, by simpa using ho, (h.2 heq.symm).resolve_left ho⟩

theorem not_resolves_of_pastUse
    (hh : h = makeHandle (h % 256 - 1) (1 + r % kernelHandleGenerationMask))
    (hp : PastUse (s.entry τ (h % 256 - 1)) r)
    (hlt : (s.entry τ (h % 256 - 1)).retirements < kernelHandleGenerationMask) :
    ¬ Resolves s τ h := by
  rintro ⟨i, hi⟩
  obtain ⟨-, ho, -, -, hg, -, rfl⟩ := findEntry_ok hi
  rcases hp with hp | ⟨-, ho', -⟩
  · have hgen := (hs.entries τ (h % 256 - 1)).generation
    rw [view_entry] at hgen
    have he : (s.entry τ (h % 256 - 1)).generation = 1 + r % kernelHandleGenerationMask := by
      have h1 := hg.symm.trans hh
      unfold makeHandle at h1
      omega
    have hr : r < kernelHandleGenerationMask := Nat.lt_trans hp hlt
    rw [hgen, Nat.mod_eq_of_lt hlt, Nat.mod_eq_of_lt hr] at he
    exact Nat.ne_of_lt hp (Nat.add_left_cancel he).symm
  · simp [ho] at ho'

theorem inUse_of_resolves (hr : Resolves s τ h) : h % 256 - 1 < kernelHandleMaxEntries ∧
      InUse (s.entry τ (h % 256 - 1)) (s.entry τ (h % 256 - 1)).retirements ∧
      h = makeHandle (h % 256 - 1) (1 + (s.entry τ (h % 256 - 1)).retirements %
        kernelHandleGenerationMask) := by
  obtain ⟨i, hi⟩ := hr
  obtain ⟨hlt, ho, -, -, hg, -, rfl⟩ := findEntry_ok hi
  refine ⟨hlt, ⟨Nat.le_refl _, fun _ => .inl ho⟩, hg.trans ?_⟩
  exact congrArg _ (hs.entries τ (h % 256 - 1)).generation

end

section runs

variable {s : HandleState} {i r σ τ : ℕ} {grants : ℕ → SlotGrant}

theorem step_inUse {ev : HandleEvent} (hs : HandleSound s.view)
    (ha : HandleAdmissible s ev) (h : InUse (s.entry τ i) r) :
    InUse ((s.step F ev).entry τ i) r := by
  have hv : ∀ v, HandleUpdates F s ev s.view v → InUse (v.entry τ i) r := by
    intro v hu
    induction hu with
    | refl => exact h
    | tail _ hu ih => exact inUse_update hu ih
  exact hv _ (step_updates hs ha)

theorem step_pastUse {ev : HandleEvent} (hs : HandleSound s.view)
    (ha : HandleAdmissible s ev) (h : PastUse (s.entry τ i) r) :
    PastUse ((s.step F ev).entry τ i) r := by
  have hv : ∀ v, HandleUpdates F s ev s.view v → PastUse (v.entry τ i) r := by
    intro v hu
    induction hu with
    | refl => exact h
    | tail _ hu ih => exact pastUse_update hu ih
  exact hv _ (step_updates hs ha)

theorem cloneEntries_retirements :
    ∀ (l : List ℕ) (s s' : HandleState), l.Nodup → cloneEntries σ τ grants l s = (.ok, s') →
      (∀ τ' j, j ∉ l → s'.entry τ' j = s.entry τ' j) ∧
        ∀ i ∈ l, (s.entry σ i).retirements ≤ (s'.entry τ i).retirements
  | [], s, s', _, h => by
    obtain rfl : s = s' := by simpa [cloneEntries] using h
    exact ⟨fun _ _ _ => rfl, fun _ hi => absurd hi not_mem_nil⟩
  | i :: l, s, s', hl, h => by
    obtain ⟨hil, hl'⟩ := nodup_cons.1 hl
    -- slot `i` is written now, the rest of the loop leaves it alone
    have hnext : ∀ s₁ : HandleState, cloneEntries σ τ grants l s₁ = (.ok, s') →
        (∀ τ' j, j ≠ i → s₁.entry τ' j = s.entry τ' j) →
        (s.entry σ i).retirements ≤ (s₁.entry τ i).retirements →
        (∀ τ' j, j ∉ i :: l → s'.entry τ' j = s.entry τ' j) ∧
          ∀ j ∈ i :: l, (s.entry σ j).retirements ≤ (s'.entry τ j).retirements := by
      intro s₁ h₁ he hi
      obtain ⟨hout, hin⟩ := cloneEntries_retirements l s₁ s' hl' h₁
      refine ⟨fun τ' j hj => ?_, fun j hj => ?_⟩
      · obtain ⟨hji, hjl⟩ := not_or.1 (fun h => hj (mem_cons.2 h))
        rw [hout τ' j hjl, he τ' j hji]
      · rcases mem_cons.1 hj with rfl | hj
        · rw [hout τ j hil]
          exact hi
        · rw [← he σ j fun h => hil (h ▸ hj)]
          exact hin j hj
    have hset : ∀ (s₂ : HandleState) (e : KernelHandleEntry), s₂.entry = s.entry →
        (∀ τ' j, j ≠ i → (s₂.setEntry τ i e).entry τ' j = s.entry τ' j) ∧
          (s₂.setEntry τ i e).entry τ i = e := by
      intro s₂ e he
      refine ⟨fun τ' j hj => ?_, by simp [entry_setEntry]⟩
      rw [entry_setEntry, if_neg fun h => hj h.2, he]
    unfold cloneEntries at h
    dsimp only at h
    split_ifs at h
    · refine hnext _ h (hset s _ rfl).1 ?_
      exact Nat.le_of_eq (by rw [(hset s _ rfl).2])
    · refine hnext _ h (hset s _ rfl).1 ?_
      rw [(hset s _ rfl).2]
      exact Nat.le_succ _
    · simp at h
    · simp at h
    · refine hnext _ h (hset _ _ (entry_setSlotFree s τ i false)).1 ?_
      show _ ≤ (((s.setSlotFree τ i false).setEntry τ i _).entry τ i).retirements
      exact Nat.le_of_eq (by rw [(hset _ _ (entry_setSlotFree s τ i false)).2])
    · split at h <;> simp at h

/-- `σ` is the table `τ`, or was cloned on the way from a table that is. -/
inductive Descends (F : KernelHandleImportRights) (s : HandleState) (τ : ℕ) :
    List HandleEvent → ℕ → Prop
  | self : Descends F s τ [] τ
  | later {evs : List HandleEvent} {σ : ℕ} (ev : HandleEvent) :
    Descends F s τ evs σ → Descends F s τ (evs ++ [ev]) σ
  | cloned {evs : List HandleEvent} {σ σ' : ℕ} {grants : ℕ → SlotGrant} : Descends F s τ evs σ →
    ((s.run F evs).perform F (.cloneTable σ σ' grants)).1.1 = .ok →
    Descends F s τ (evs ++ [.call (.cloneTable σ σ' grants)]) σ'

theorem clone_pastUse (hi : i < kernelHandleMaxEntries) (hc : s.view.Covered) (hf : s.frames = [])
    (hok : (kernelHandleCloneTable s σ τ grants).1 = .ok) (h : PastUse (s.entry σ i) r) :
    PastUse ((kernelHandleCloneTable s σ τ grants).2.entry τ i) r := by
  have hlt : r < (s.entry σ i).retirements := by
    rcases h with h | ⟨-, -, hcl⟩
    · exact h
    · obtain ⟨rest, hm, -⟩ := hc σ i hcl
      rw [view_frames, hf] at hm
      exact absurd hm not_mem_nil
  unfold kernelHandleCloneTable at hok ⊢
  split_ifs at hok ⊢
  have hr : cloneEntries σ τ grants (List.range kernelHandleMaxEntries) s =
      (.ok, (cloneEntries σ τ grants (List.range kernelHandleMaxEntries) s).2) := by
    rw [← hok]
  exact .inl (Nat.lt_of_lt_of_le hlt ((cloneEntries_retirements _ s _ nodup_range hr).2 i
    (mem_range.2 hi)))

theorem descends_pastUse {evs : List HandleEvent}
    (hi : i < kernelHandleMaxEntries) (hs : HandleSound s.view) (hc : s.view.Covered)
    (ha : s.Along F HandleAdmissible evs) (h : PastUse (s.entry τ i) r)
    (hd : Descends F s τ evs σ) : PastUse ((s.run F evs).entry σ i) r := by
  induction hd with
  | self => exact h
  | @later evs σ ev hd ih =>
    obtain ⟨ha', hev, -⟩ := (HandleState.Along.append F).1 ha
    have hs' : HandleSound (s.run F evs).view := HandleState.run_induction
      (I := fun s => HandleSound s.view) F (fun _ _ hs ha => step_handleSound hs ha) hs ha'
    rw [HandleState.run_append]
    exact step_pastUse hs' hev (ih ha')
  | @cloned evs σ σ' grants hd hok ih =>
    obtain ⟨ha', hev, -⟩ := (HandleState.Along.append F).1 ha
    have hs' : HandleSound (s.run F evs).view ∧ (s.run F evs).view.Covered :=
      HandleState.run_induction (I := fun s => HandleSound s.view ∧ s.view.Covered) F
        (fun s ev hs ha => ⟨step_handleSound hs.1 ha, step_covered hs.1 ha hs.2⟩) ⟨hs, hc⟩ ha'
    rw [HandleState.run_append]
    exact clone_pastUse hi hs'.2 hev.1 hok (ih ha')

end runs

section ends

variable {s : HandleState} {h i τ : ℕ}

theorem not_resolves_of_unoccupied
    (ho : (s.entry τ (h % 256 - 1)).occupied = false) : ¬ Resolves s τ h := by
  rintro ⟨i, hi⟩
  obtain ⟨-, ho', -, -, -, -, rfl⟩ := findEntry_ok hi
  simp [ho] at ho'

theorem retireAndDrop_occupied (s : HandleState) (τ i j : ℕ)
    (h : j = i ∨ (s.entry τ j).occupied = false) :
    ((s.retireAndDrop τ i).entry τ j).occupied = false := by
  rw [show (s.retireAndDrop τ i).entry = (s.retireEntry τ i).entry from rfl, entry_retireEntry]
  split_ifs with hij
  · rfl
  · exact h.resolve_left fun hj => hij ⟨rfl, hj⟩

theorem closeAllRest_occupied : ∀ (l : List ℕ) (s : HandleState),
    (s.entry τ i).occupied = false → ((closeAllRest τ l s).entry τ i).occupied = false
  | [], _, h => h
  | j :: l, s, h => by
    unfold closeAllRest
    dsimp only
    split_ifs
    · exact closeAllRest_occupied l s h
    · have hr := retireAndDrop_occupied s τ j i (.inr h)
      split
      · exact closeAllRest_occupied l _ hr
      · exact hr

theorem closeMark_occupied (s : HandleState) (τ j i : ℕ)
    (h : i = j ∨ (s.entry τ i).occupied = false) :
    ((closeMark τ s j).entry τ i).occupied = false := by
  have hi : ∀ e : KernelHandleEntry, e.occupied = false → ∀ s' : HandleState,
      s'.entry = s.entry → ((s'.setEntry τ j e).entry τ i).occupied = false := by
    intro e he s' hs'
    rw [entry_setEntry]
    split_ifs with hij
    · exact he
    · rw [hs']
      exact h.resolve_left fun hj => hij ⟨rfl, hj⟩
  unfold closeMark
  dsimp only
  split_ifs with h1 h2
  · exact hi _ rfl s rfl
  · rcases h with rfl | h
    · simpa using h1
    · exact h
  · have he : (flagUnless s.slotRelease).entry = s.entry :=
      congrArg HandleView.entry (by simp : (flagUnless s.slotRelease).view = s.view)
    rw [← view_entry, view_flagUnless, view_entry, entry_releaseFreeSlot]
    exact hi _ (by simpa using h1) _ he

theorem closeMarks_occupied : ∀ (l : List ℕ) (s : HandleState),
    i ∈ l ∨ (s.entry τ i).occupied = false →
      ((l.foldl (closeMark τ) s).entry τ i).occupied = false
  | [], s, h => h.resolve_left not_mem_nil
  | j :: l, s, h => by
    refine closeMarks_occupied l (closeMark τ s j) ?_
    rcases h with h | h
    · rcases mem_cons.1 h with rfl | h
      · exact .inr (closeMark_occupied s τ i i (.inl rfl))
      · exact .inl h
    · exact .inr (closeMark_occupied s τ j i (.inr h))

theorem closeAll_occupied (s : HandleState) (τ : ℕ) (hi : i < kernelHandleMaxEntries) :
    ((kernelHandleCloseAll s τ).entry τ i).occupied = false :=
  closeAllRest_occupied _ _ (closeMarks_occupied _ s (.inl (mem_range.2 hi)))

theorem exportEach_occupied {τ : ℕ} : ∀ (pairs : List (ℕ × ℕ)) (s s' : HandleState),
    exportEach τ pairs s = (.ok, s') →
      ∀ j, (∃ p ∈ pairs, j = p.2 % 256 - 1) ∨ (s.entry τ j).occupied = false →
        (s'.entry τ j).occupied = false
  | [], s, s', h => by
    obtain rfl : s = s' := by simpa [exportEach] using h
    intro j hj
    exact hj.resolve_left fun ⟨p, hp, _⟩ => absurd hp not_mem_nil
  | (detached, handle) :: pairs, s, s', h => by
    unfold exportEach at h
    rcases hf : findEntry s τ handle with status | i
    · simp [hf] at h
    rcases hd : s.findDetachedEntry detached .reserved with _ | ⟨d, e⟩
    · simp [hf, hd] at h
    simp only [hf, hd] at h
    intro j hj
    refine exportEach_occupied pairs _ s' h j ?_
    have hset : ∀ e', ((s.retireEntry τ i).setDetached d e').entry = (s.retireEntry τ i).entry :=
      fun _ => rfl
    rw [hset, entry_retireEntry]
    rcases hj with ⟨p, hp, hj⟩ | hj
    · rcases mem_cons.1 hp with rfl | hp
      · right
        rw [if_pos ⟨rfl, hj.trans (findEntry_ok hf).2.2.2.2.2.2.symm⟩]
        rfl
      · exact .inl ⟨p, hp, hj⟩
    · right
      split_ifs
      · rfl
      · exact hj

theorem transferCommitExport_spec {b : ℕ}
    (hok : (kernelHandleTransferCommitExport s τ b).1 = .ok) (hm : h ∈ (s.batches b).source) :
    Resolves s τ h ∧ ¬ Resolves (kernelHandleTransferCommitExport s τ b).2 τ h := by
  obtain ⟨p, hp, rfl⟩ := mem_map.1 hm
  unfold kernelHandleTransferCommitExport at hok ⊢
  by_cases h1 : (s.batches b).state ≠ .prepared ∨ (s.batches b).entries.length = 0
  · rw [if_pos h1] at hok
    simp at hok
  rw [if_neg h1] at hok ⊢
  obtain ⟨-, hcheck⟩ := exportCheck_spec τ s (s.batches b).entries
  generalize exportCheck τ s (s.batches b).entries = q at hok hcheck ⊢
  obtain ⟨status, s₁⟩ := q
  obtain rfl : status = .ok := by
    cases status <;> first | rfl | simp at hok
  obtain ⟨rfl, hall⟩ := hcheck s₁ rfl
  obtain ⟨i, d, e, hf, -⟩ := hall p hp
  refine ⟨⟨i, hf⟩, ?_⟩
  dsimp only at hok ⊢
  by_cases h2 : s₁.transferStats.reservedDetached < (s₁.batches b).entries.length ∨
      kernelHandleDetachedMax - (s₁.batches b).entries.length < s₁.transferStats.liveDetached
  · rw [if_pos h2] at hok
    simp at hok
  rw [if_neg h2] at hok ⊢
  have hocc := @exportEach_occupied τ (s₁.batches b).entries s₁
  generalize exportEach τ (s₁.batches b).entries s₁ = q at hok hocc ⊢
  obtain ⟨status, s₂⟩ := q
  obtain rfl : status = .ok := by
    cases status <;> first | rfl | simp at hok
  exact not_resolves_of_unoccupied (hocc s₂ rfl _ (.inl ⟨p, hp, rfl⟩))

/-- The event closes the handle `h` of table `τ`, exports it, or ends its use in another way: as
when a close of all handles of a type comes to it. -/
inductive HandleEnds (F : KernelHandleImportRights) (s : HandleState) (τ h : ℕ) :
    HandleEvent → Prop
  | close : (s.perform F (.close τ h)).1.1 = .ok → HandleEnds F s τ h (.call (.close τ h))
  | closeAll : Resolves s τ h → HandleEnds F s τ h (.call (.closeAll τ))
  | exported {b : ℕ} : h ∈ (s.batches b).source →
    (s.perform F (.transferCommitExport τ b)).1.1 = .ok →
    HandleEnds F s τ h (.call (.transferCommitExport τ b))
  | other {ev : HandleEvent} : Resolves s τ h → ¬ Resolves (s.step F ev) τ h →
    HandleEnds F s τ h ev

theorem handleEnds_spec {ev : HandleEvent}
    (he : HandleEnds F s τ h ev) : Resolves s τ h ∧ ¬ Resolves (s.step F ev) τ h := by
  cases he with
  | close hok =>
    simp only [HandleState.step, HandleState.perform] at hok ⊢
    unfold kernelHandleClose at hok ⊢
    rcases hf : findEntry s τ h with status | i
    · rw [hf] at hok
      dsimp only at hok
      rw [hok] at hf
      exact absurd hf (findEntry_ne_ok s τ h)
    · have hr := retireAndDrop_occupied s τ i (h % 256 - 1) (.inl (findEntry_ok hf).2.2.2.2.2.2.symm)
      refine ⟨⟨i, hf⟩, not_resolves_of_unoccupied ?_⟩
      dsimp only
      split <;> exact hr
  | closeAll hr =>
    refine ⟨hr, not_resolves_of_unoccupied ?_⟩
    obtain ⟨i, hi⟩ := hr
    obtain ⟨hlt, -, -, -, -, -, rfl⟩ := findEntry_ok hi
    simp only [HandleState.step, HandleState.perform]
    exact closeAll_occupied s τ hlt
  | @exported b hm hok =>
    exact transferCommitExport_spec hok hm
  | other hr hn => exact ⟨hr, hn⟩

end ends

/-- No lookup, close, copy or transfer with the value `h` succeeds in the table. -/
structure Unusable (F : KernelHandleImportRights) (s : HandleState) (τ h : ℕ) : Prop where
  lookup : ∀ type rights, (kernelHandleLookup s τ h type rights).1.1 ≠ .ok
  lookupContext : ∀ type rights, (kernelHandleLookupContext s τ h type rights).1.1 ≠ .ok
  lookupAny : ∀ rights, (kernelHandleLookupAny s τ h rights).1.1 ≠ .ok
  setContext : ∀ type context, (kernelHandleSetContext s τ h type context).1 ≠ .ok
  close : (kernelHandleClose s τ h).1 ≠ .ok
  duplicate : ∀ rights grant, (kernelHandleDuplicate s τ h rights grant).1.1 ≠ .ok
  duplicateInto : ∀ rights τ' grant, (kernelHandleDuplicateInto s τ h rights τ' grant).1.1 ≠ .ok
  validate : ∀ handles rights, h ∈ handles →
    (kernelHandleTransferValidate F s τ handles rights).1 ≠ .ok
  prepare : ∀ handles rights b grants, h ∈ handles →
    (kernelHandleTransferPrepare F s τ handles rights b grants).1 ≠ .ok
  commit : ∀ b, h ∈ (s.batches b).source → (kernelHandleTransferCommitExport s τ b).1 ≠ .ok

theorem unusable_of_not_resolves (hn : ¬ Resolves s τ h) : Unusable F s τ h := by
  obtain ⟨status, hf, hst⟩ : ∃ status, findEntry s τ h = .error status ∧ status ≠ .ok := by
    rcases hf : findEntry s τ h with status | i
    · exact ⟨status, rfl, fun hst => findEntry_ne_ok s τ h (hst ▸ hf)⟩
    · exact absurd ⟨i, hf⟩ hn
  have hdup : ∀ rights τ' grant, (kernelHandleDuplicateInto s τ h rights τ' grant).1.1 ≠ .ok := by
    intro rights τ' grant
    unfold kernelHandleDuplicateInto
    split
    · simp
    · rw [hf]
      exact hst
  have hval : ∀ (s' : HandleState) handles rights, s'.tables = s.tables → h ∈ handles →
      (validateTransferSources F s' τ handles rights).1 ≠ .ok := by
    intro s' handles rights ht hm hok
    obtain ⟨-, hall⟩ := validateTransferSources_spec (F := F) s' τ handles rights
    obtain ⟨-, hsend⟩ := hall (validateTransferSources F s' τ handles rights).2 (by rw [← hok])
    obtain ⟨i, hi, -⟩ := hsend h hm
    rw [findEntry_congr ht] at hi
    exact hn ⟨i, hi⟩
  refine ⟨?_, ?_, ?_, ?_, ?_, fun rights grant => hdup rights τ grant, hdup, ?_, ?_, ?_⟩
  · intro type rights
    simpa [kernelHandleLookup, hf] using hst
  · intro type rights
    simpa [kernelHandleLookupContext, hf] using hst
  · intro rights
    simpa [kernelHandleLookupAny, hf] using hst
  · intro type context
    simpa [kernelHandleSetContext, hf] using hst
  · simpa [kernelHandleClose, hf] using hst
  · exact fun handles rights hm => hval s handles rights rfl hm
  · intro handles rights b grants hm hok
    have hv := hval (s.setBatch b emptyTransferBatch) handles rights rfl hm
    unfold kernelHandleTransferPrepare at hok
    generalize validateTransferSources F (s.setBatch b emptyTransferBatch) τ handles rights = q
      at hv hok
    obtain ⟨status, s₁⟩ := q
    cases status <;> first | exact hv rfl | simp at hok
  · exact fun b hm hok => hn (transferCommitExport_spec hok hm).1

end Astra
