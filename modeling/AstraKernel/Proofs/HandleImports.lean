import AstraKernel.Proofs.HandleExports
import AstraKernel.Proofs.HandleRuns

/-!
# Imports that are undone

An import reserves free slots of a table one after the other. A reserved slot keeps its entry but
for the mark, so freeing it makes the table what it was.
-/

namespace Astra

open HandleState List

structure SameTransfer (s s' : HandleState) : Prop where
  detachedDirectory : s'.detachedDirectory = s.detachedDirectory
  detachedBackedLimit : s'.detachedBackedLimit = s.detachedBackedLimit
  detachedNextSlot : s'.detachedNextSlot = s.detachedNextSlot
  transferStats : s'.transferStats = s.transferStats
  detachedUnits : s'.detachedUnits = s.detachedUnits
  metadataUnits : s'.metadataUnits = s.metadataUnits
  batches : s'.batches = s.batches
  reservations : s'.reservations = s.reservations

theorem SameTransfer.refl (s : HandleState) : SameTransfer s s :=
  ⟨rfl, rfl, rfl, rfl, rfl, rfl, rfl, rfl⟩

theorem SameTransfer.detachedEntryAt {s s' : HandleState} (h : SameTransfer s s') :
    s'.detachedEntryAt = s.detachedEntryAt := by
  funext d
  simp only [HandleState.detachedEntryAt, h.detachedDirectory]

/-- A call moves handles through the detached pool. -/
def HandleCall.moves : HandleCall → Bool
  | .transferPrepare .. | .transferNarrow .. | .transferCommitExport .. | .transferRollback ..
  | .importReserve .. | .importCommit .. | .importCancel .. | .detachedRelease .. => true
  | _ => false

section

variable {s : HandleState} {τ i : ℕ}

theorem releaseFreeSlot_eq (ho : (s.entry τ i).occupied = false)
    (hr : (s.entry τ i).reserved = .none) (hf : s.slotFree τ i = false) :
    s.releaseFreeSlot τ i = (true, s.setSlotFree τ i true) := by
  unfold releaseFreeSlot
  rw [if_neg (by simp [ho, hr, hf])]

theorem slotRelease_eq (h : s.slotUnits ≠ 0) :
    s.slotRelease = (true, { s with slotUnits := s.slotUnits - 1 }) := by
  unfold slotRelease
  rw [if_neg h]

end

structure SlotsHeld (s₀ s : HandleState) (τ : ℕ) (slots : List ℕ) : Prop where
  transfer : SameTransfer s₀ s
  healthy : s.transferPoolCorrupt = false
  others : ∀ τ', τ' ≠ τ → s.tables τ' = s₀.tables τ'
  owner : (s.tables τ).owner = (s₀.tables τ).owner ∧
    (s.tables τ).processId = (s₀.tables τ).processId
  entries : ∀ i, s.entry τ i =
    if i ∈ slots then { s₀.entry τ i with reserved := .importReserved } else s₀.entry τ i
  free : ∀ i, s.slotFree τ i = if i ∈ slots then false else s₀.slotFree τ i
  was : ∀ i ∈ slots, i < kernelHandleMaxEntries ∧ (s₀.entry τ i).occupied = false ∧
    (s₀.entry τ i).reserved = .none ∧ s₀.slotFree τ i = true
  units : s.slotUnits = s₀.slotUnits + slots.length
  nodup : slots.Nodup

section held

variable {s₀ s : HandleState} {τ i : ℕ} {slots : List ℕ}

theorem SlotsHeld.refl (hc : s.transferPoolCorrupt = false) (τ : ℕ) : SlotsHeld s s τ [] where
  transfer := .refl s
  healthy := hc
  others _ _ := rfl
  owner := ⟨rfl, rfl⟩
  entries _ := by simp
  free _ := by simp
  was i hi := absurd hi not_mem_nil
  units := rfl
  nodup := nodup_nil

theorem SlotsHeld.setReservation (h : SlotsHeld s₀ s τ slots) (r : ℕ)
    (reservation : KernelHandleImportReservation) :
    SlotsHeld (s₀.setReservation r reservation) (s.setReservation r reservation) τ slots := by
  obtain ⟨h1, h2, h3, h4, h5, h6, h7, h8⟩ := h.transfer
  refine ⟨⟨h1, h2, h3, h4, h5, h6, h7, ?_⟩, h.healthy, h.others, h.owner, h.entries, h.free, h.was,
    h.units, h.nodup⟩
  show Function.update s.reservations r reservation = Function.update s₀.reservations r reservation
  rw [h8]

theorem SlotsHeld.tables (h : SlotsHeld s₀ s τ []) : s.tables = s₀.tables := by
  funext τ'
  by_cases hτ : τ' = τ
  · subst hτ
    have he : (s.tables τ').entries = (s₀.tables τ').entries := by
      funext i
      exact (h.entries i).trans (if_neg not_mem_nil)
    have hf : (s.tables τ').freeSlots = (s₀.tables τ').freeSlots := by
      funext i
      exact (h.free i).trans (if_neg not_mem_nil)
    obtain ⟨ho, hp⟩ := h.owner
    rcases hx : s.tables τ' with ⟨e, o, p, f⟩
    rcases hy : s₀.tables τ' with ⟨e', o', p', f'⟩
    rw [hx, hy] at he hf ho hp
    dsimp only at he hf ho hp
    rw [he, hf, ho, hp]
  · exact h.others τ' hτ

theorem SlotsHeld.added (h : SlotsHeld s₀ s τ slots) (hi : i < kernelHandleMaxEntries)
    (hnot : i ∉ slots) (ho : (s₀.entry τ i).occupied = false)
    (hr : (s₀.entry τ i).reserved = .none) (hf : s₀.slotFree τ i = true) :
    SlotsHeld s₀ ((s.setSlotFree τ i false).setEntry τ i
      { s.entry τ i with reserved := .importReserved }).slotCommit τ (slots ++ [i]) := by
  obtain ⟨h1, h2, h3, h4, h5, h6, h7, h8⟩ := h.transfer
  refine ⟨⟨h1, h2, h3, h4, h5, h6, h7, h8⟩, h.healthy, fun τ' hτ => ?_, ?_, fun j => ?_, fun j => ?_,
    fun j hj => ?_, ?_, ?_⟩
  · rw [← h.others τ' hτ]
    simp [setEntry, setSlotFree, slotCommit, hτ]
  · simpa [setEntry, setSlotFree, slotCommit] using h.owner
  · show ((s.setSlotFree τ i false).setEntry τ i _).entry τ j = _
    rw [entry_setEntry, entry_setSlotFree]
    rcases eq_or_ne j i with rfl | hne
    · simp [h.entries j, hnot]
    · simp [h.entries j, hne]
  · show ((s.setSlotFree τ i false).setEntry τ i _).slotFree τ j = _
    rw [slotFree_setEntry, slotFree_setSlotFree]
    rcases eq_or_ne j i with rfl | hne
    · simp
    · simp [h.free j, hne]
  · rcases mem_append.1 hj with hj | hj
    · exact h.was j hj
    · obtain rfl := mem_singleton.1 hj
      exact ⟨hi, ho, hr, hf⟩
  · show s.slotUnits + 1 = _
    rw [h.units, length_append, length_singleton, Nat.add_assoc]
  · refine nodup_append.2 ⟨h.nodup, nodup_singleton i, fun a ha b hb hab => hnot ?_⟩
    rw [← mem_singleton.1 hb, ← hab]
    exact ha

theorem SlotsHeld.removed (h : SlotsHeld s₀ s τ (i :: slots)) :
    ∃ s', unreserveChecked τ s i = (true, s') ∧ unreserve τ s i = s' ∧ SlotsHeld s₀ s' τ slots := by
  obtain ⟨hi, ho, hr, hf⟩ := h.was i mem_cons_self
  obtain ⟨hnot, hnd⟩ := nodup_cons.1 h.nodup
  have hentry : s.entry τ i = { s₀.entry τ i with reserved := .importReserved } := by
    simp [h.entries i]
  have hfree : s.slotFree τ i = false := by simp [h.free i]
  obtain ⟨s₁, hs₁⟩ : ∃ s₁, s₁ = s.setEntry τ i { s.entry τ i with reserved := .none } := ⟨_, rfl⟩
  have hentry₁ : s₁.entry τ i = s₀.entry τ i := by
    rw [hs₁, entry_setEntry, if_pos ⟨rfl, rfl⟩, hentry, ← hr]
  have hfree₁ : s₁.slotFree = s.slotFree := by
    rw [hs₁]
    exact slotFree_setEntry s τ i _
  have hrel : s₁.releaseFreeSlot τ i = (true, s₁.setSlotFree τ i true) :=
    releaseFreeSlot_eq (by rw [hentry₁, ho]) (by rw [hentry₁, hr]) (by rw [hfree₁, hfree])
  have hunits : (s₁.setSlotFree τ i true).slotUnits ≠ 0 := by
    have hu := h.units
    rw [length_cons] at hu
    show s₁.slotUnits ≠ 0
    rw [hs₁]
    show s.slotUnits ≠ 0
    omega
  have hslot := slotRelease_eq hunits
  refine ⟨{ s₁.setSlotFree τ i true with slotUnits := (s₁.setSlotFree τ i true).slotUnits - 1 },
    ?_, ?_, ?_⟩
  · unfold unreserveChecked
    rw [← hs₁]
    dsimp only
    rw [hrel]
    exact hslot
  · unfold unreserve
    rw [← hs₁]
    dsimp only
    rw [hrel]
    dsimp only [flagUnless]
    rw [hslot]
  · obtain ⟨h1, h2, h3, h4, h5, h6, h7, h8⟩ := h.transfer
    refine ⟨?_, ?_, fun τ' hτ => ?_, ?_, fun j => ?_, fun j => ?_,
      fun j hj => h.was j (mem_cons_of_mem _ hj), ?_, hnd⟩
    · rw [hs₁]
      exact ⟨h1, h2, h3, h4, h5, h6, h7, h8⟩
    · rw [hs₁]
      exact h.healthy
    · rw [← h.others τ' hτ, hs₁]
      simp [setEntry, setSlotFree, hτ]
    · rw [hs₁]
      simpa [setEntry, setSlotFree] using h.owner
    · show (s₁.setSlotFree τ i true).entry τ j = _
      rw [entry_setSlotFree]
      rcases eq_or_ne j i with rfl | hne
      · rw [hentry₁, if_neg hnot]
      · rw [hs₁, entry_setEntry, if_neg fun h1 => hne h1.2, h.entries j]
        simp [hne]
    · show (s₁.setSlotFree τ i true).slotFree τ j = _
      rw [slotFree_setSlotFree, hfree₁]
      rcases eq_or_ne j i with rfl | hne
      · simp [hnot, hf]
      · rw [if_neg fun h1 => hne h1.2, h.free j]
        simp [hne]
    · have hu := h.units
      rw [length_cons] at hu
      show s₁.slotUnits - 1 = _
      rw [hs₁]
      show s.slotUnits - 1 = _
      omega

theorem unreserves_held : ∀ (slots : List ℕ) (s : HandleState), SlotsHeld s₀ s τ slots →
    SlotsHeld s₀ (slots.foldl (unreserve τ) s) τ []
  | [], _, h => h
  | slot :: slots, s, h => by
    obtain ⟨s', -, hu, h'⟩ := h.removed
    rw [foldl_cons, hu]
    exact unreserves_held slots s' h'

theorem cancelEach_held : ∀ (slots : List ℕ) (s : HandleState), SlotsHeld s₀ s τ slots →
    ∃ s', cancelEach τ slots s = (.ok, s') ∧ SlotsHeld s₀ s' τ []
  | [], s, h => ⟨s, rfl, h⟩
  | slot :: slots, s, h => by
    obtain ⟨s₁, hu, -, h₁⟩ := h.removed
    obtain ⟨s', hs', h'⟩ := cancelEach_held slots s₁ h₁
    refine ⟨s', ?_, h'⟩
    rw [cancelEach, hu]
    exact hs'

theorem reserveEach_held {count : ℕ} {grants : ℕ → SlotGrant}
    (ht : kernelHandleTableValid s₀ τ = true)
    (hg : ∀ i, normalGeneration (s₀.entry τ i).generation kernelHandleGenerationMask =
      (s₀.entry τ i).generation)
    (hc : ∀ k, (grants k).commit = true) : ∀ (l : List ℕ) (made : List (ℕ × ℕ)) (s : HandleState),
    SlotsHeld s₀ s τ (made.map Prod.fst) → l.Nodup →
    (∀ i ∈ l, i < kernelHandleMaxEntries ∧ i ∉ made.map Prod.fst) → made.length ≤ count →
    count ≤ made.length + l.countP (s₀.slotFree τ) →
    ∃ made' s', SlotsHeld s₀ s' τ (made'.map Prod.fst) ∧
      (made'.length = count ∧ reserveEach τ count grants l made s = (.ok, made', s') ∨
        made' = [] ∧ reserveEach τ count grants l made s = (.tableFull, [], s'))
  | [], made, s, h, _, _, hle, hge => by
    rw [countP_nil] at hge
    exact ⟨made, s, h, .inl ⟨by omega, rfl⟩⟩
  | slot :: rest, made, s, h, hnd, hl, hle, hge => by
    rw [reserveEach]
    split
    · exact ⟨made, s, h, .inl ⟨by omega, rfl⟩⟩
    obtain ⟨hlt, hnot⟩ := hl slot mem_cons_self
    obtain ⟨hslot, hnd'⟩ := nodup_cons.1 hnd
    have hentry : s.entry τ slot = s₀.entry τ slot := by rw [h.entries, if_neg hnot]
    have hvalid := tableValid_slot ht hlt
    split
    · rename_i hbusy
      have hfree : ¬ s₀.slotFree τ slot = true := by
        rw [hvalid, ← hentry]
        rintro ⟨h1, h2⟩
        simp [h1, h2] at hbusy
      rw [countP_cons_of_neg hfree] at hge
      exact reserveEach_held ht hg hc rest made s h hnd'
        (fun i hi => hl i (mem_cons_of_mem _ hi)) hle hge
    rename_i hbusy
    push Not at hbusy
    have ho : (s₀.entry τ slot).occupied = false := by simpa [hentry] using hbusy.1
    have hr : (s₀.entry τ slot).reserved = .none := hentry ▸ hbusy.2
    have hfree : s₀.slotFree τ slot = true := hvalid.2 ⟨ho, hr⟩
    rw [countP_cons_of_pos hfree] at hge
    rw [if_neg (by simp [h.free, hnot, hfree])]
    by_cases ha : (grants made.length).attempt = false
    · rw [if_pos ha]
      exact ⟨[], _, unreserves_held _ s h, .inr ⟨rfl, rfl⟩⟩
    rw [if_neg ha, if_neg (by simp [hc]), hentry, hg]
    have hadd := h.added hlt hnot ho hr hfree
    rw [hentry] at hadd
    refine reserveEach_held ht hg hc rest (made ++ [(slot, makeHandle slot (s₀.entry τ slot).generation)]) _
      (by simpa using hadd) hnd' (fun i hi => ⟨(hl i (mem_cons_of_mem _ hi)).1, ?_⟩) ?_ ?_
    · have hne : i ≠ slot := fun h1 => hslot (h1 ▸ hi)
      simpa [hne] using (hl i (mem_cons_of_mem _ hi)).2
    · rw [length_append, length_singleton]
      omega
    · rw [length_append, length_singleton]
      omega

theorem SameTransfer.valid {s' : HandleState} (h : SameTransfer s s')
    (hc : s'.transferPoolCorrupt = false) (hp : kernelHandleTransferPoolValid s) :
    kernelHandleTransferPoolValid s' := by
  unfold kernelHandleTransferPoolValid allocatedLeaves detachedIn at hp ⊢
  rw [h.detachedEntryAt, h.detachedDirectory, h.detachedBackedLimit, h.transferStats,
    h.detachedUnits, h.metadataUnits]
  exact ⟨hc, hp.2⟩

theorem SlotsHeld.undone (h : SlotsHeld s₀ s τ []) (hp : kernelHandleTransferPoolValid s₀) :
    Undone s₀ s :=
  .of_tables h.tables h.units (fun d e _ => by rw [h.transfer.detachedEntryAt])
    (h.transfer.valid h.healthy hp)

end held

section calls

variable {s₀ s : HandleState} {τ : ℕ}

theorem reserve_held (hp : kernelHandleTransferPoolValid s) (ht : kernelHandleTableValid s τ = true)
    (hg : ∀ i, normalGeneration (s.entry τ i).generation kernelHandleGenerationMask =
      (s.entry τ i).generation) (detached : List ℕ) (r : ℕ) {grants : ℕ → SlotGrant}
    (hc : ∀ k, (grants k).commit = true) :
    ((kernelHandleImportReserve s τ detached r grants).1 ≠ .ok ∧
      Undone s (kernelHandleImportReserve s τ detached r grants).2) ∨
    ∃ made s₁, SlotsHeld (s.setReservation r emptyImportReservation) s₁ τ (made.map Prod.fst) ∧
      kernelHandleImportReserve s τ detached r grants =
        (.ok, s₁.setReservation r { entries := made, active := true }) := by
  obtain ⟨s₀, hs₀⟩ : ∃ s₀, s₀ = s.setReservation r emptyImportReservation := ⟨_, rfl⟩
  have hheld : SlotsHeld s₀ s₀ τ [] := .refl (hs₀ ▸ hp.1) τ
  have hp₀ : kernelHandleTransferPoolValid s₀ := hs₀ ▸ hp
  have ht₀ : kernelHandleTableValid s₀ τ = true := hs₀ ▸ ht
  have hg₀ : ∀ i, normalGeneration (s₀.entry τ i).generation kernelHandleGenerationMask =
      (s₀.entry τ i).generation := hs₀ ▸ hg
  have hundone : ∀ s', SlotsHeld s₀ s' τ [] → Undone s s' := by
    intro s' h'
    obtain ⟨h1, h2, h3, h4, h5, h6⟩ := h'.undone hp₀
    subst hs₀
    exact ⟨h1, h2, h3, h4, h5, h6⟩
  unfold kernelHandleImportReserve
  dsimp only
  split
  · exact .inl ⟨by simp, (SlotsHeld.refl hp.1 τ).undone hp⟩
  rw [← hs₀]
  rcases hl : liveOnce s₀ [] detached with _ | _ | _ | _ | _ | _ | _ | _ | _ | _
  case ok =>
    dsimp only
    split
    · exact .inl ⟨by simp, hundone s₀ hheld⟩
    have havail : kernelHandleAvailable s₀ τ =
      (List.range kernelHandleMaxEntries).countP (s₀.slotFree τ) := rfl
    obtain ⟨made, s₁, h₁, ⟨hlen, hres⟩ | ⟨rfl, hres⟩⟩ := reserveEach_held
      ht₀ hg₀ hc (List.range kernelHandleMaxEntries) [] s₀ hheld nodup_range
      (fun i hi => ⟨mem_range.1 hi, not_mem_nil⟩) (Nat.zero_le detached.length)
      (by rw [length_nil, ← havail]; omega)
    · rw [hres]
      dsimp only
      rw [if_neg (by simp [hlen])]
      exact .inr ⟨made, s₁, h₁, rfl⟩
    · rw [hres]
      exact .inl ⟨by simp, hundone s₁ h₁⟩
  all_goals exact .inl ⟨by simp, hundone s₀ hheld⟩

theorem cancel_held {made : List (ℕ × ℕ)} {r : ℕ} (h : SlotsHeld s₀ s τ (made.map Prod.fst))
    (hr : s.reservations r = { entries := made, active := true }) :
    ∃ s₁, SlotsHeld s₀ s₁ τ [] ∧ kernelHandleImportCancel s τ r =
      (.ok, (s₁.setStats { s₁.transferStats with
        importRollbacks := s₁.transferStats.importRollbacks + 1 }).setReservation r
          emptyImportReservation) := by
  have hall : ((made.map Prod.fst).any fun slot => decide (kernelHandleMaxEntries ≤ slot) ||
      (s.entry τ slot).occupied || decide ((s.entry τ slot).reserved ≠ .importReserved) ||
        s.slotFree τ slot) = false := by
    rw [any_eq_false]
    intro slot hm
    obtain ⟨hlt, ho, -, -⟩ := h.was slot hm
    rw [h.entries, h.free, if_pos hm, if_pos hm]
    simp [ho, hlt]
  obtain ⟨s₁, hs₁, h₁⟩ := cancelEach_held (made.map Prod.fst) s h
  refine ⟨s₁, h₁, ?_⟩
  unfold kernelHandleImportCancel
  rw [hr]
  simp only [KernelHandleImportReservation.slots, Bool.true_eq_false, if_false, hall,
    Bool.false_eq_true, hs₁]

end calls

end Astra
