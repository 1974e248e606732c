import AstraKernel.Memory.Owners
import AstraKernel.Bitmap
import AstraKernel.Probing

/-!
# The owner table over whole runs

The table is linear probing with the homes `owner % capacity`, which `owner_slot_start`'s mask
agrees with. So a search finds an owner's ledger, wherever deletions have moved it. A deletion
leaves every other ledger as it was; with no empty slot, it goes round the table for ever.
-/

namespace Astra

open Function

def KernelOwnerLedger.key (ledger : KernelOwnerLedger) : Option ℕ :=
  if ledger.owner = kernelOwnerNone then none else some ledger.owner

variable {ledger : KernelOwnerLedger}

theorem KernelOwnerLedger.key_eq_none : ledger.key = none ↔ ledger.owner = kernelOwnerNone := by
  simp [key]

theorem KernelOwnerLedger.key_eq_some {owner : ℕ} :
    ledger.key = some owner ↔ owner ≠ kernelOwnerNone ∧ ledger.owner = owner := by
  unfold key
  split <;> rename_i h
  · simp only [reduceCtorEq, false_iff, not_and]
    rintro hne rfl
    exact hne h
  · simp only [Option.some.injEq]
    exact ⟨fun h' => ⟨h' ▸ h, h'⟩, fun h' => h'.2⟩

theorem KernelOwnerLedger.key_congr {ledger' : KernelOwnerLedger}
    (h : ledger'.owner = ledger.owner) : ledger'.key = ledger.key := by
  simp [key, h]

namespace KernelOwnerTable

open KernelOwnerLedger (key)

variable {t t' : KernelOwnerTable} {owner slot frameCount : ℕ}

def ProbesOwners (t : KernelOwnerTable) : Prop :=
  Findable key (· % t.ownerSlotCapacity) t.ownerSlotCapacity t.ledgers

theorem ownerSlotStart_eq (hcap : t.ownerSlotCapacity ≠ 0) (owner : ℕ) :
    t.ownerSlotStart owner = owner % t.ownerSlotCapacity := by
  unfold ownerSlotStart
  split
  · exact and_sub_one_eq_mod hcap ‹_› owner
  · rfl

def stopsAt (t : KernelOwnerTable) (owner : ℕ) (i : ℕ) : Bool :=
  decide ((t.ledgers i).key = none ∨ (t.ledgers i).key = some owner)

theorem findOwnerSlotFrom_eq (hne : owner ≠ kernelOwnerNone) : ∀ probes index,
    t.findOwnerSlotFrom owner probes index =
      (firstFrom t.ownerSlotCapacity (t.stopsAt owner) probes index).bind fun i =>
        if (t.ledgers i).owner = owner then some i else none
  | 0, _ => rfl
  | probes + 1, index => by
    rw [findOwnerSlotFrom, firstFrom]
    simp only [stopsAt, KernelOwnerLedger.key_eq_none, KernelOwnerLedger.key_eq_some]
    by_cases hnone : (t.ledgers index).owner = kernelOwnerNone
    · simp [hnone, hne.symm]
    · by_cases howner : (t.ledgers index).owner = owner
      · simp [howner, hne]
      · simp [hnone, howner, findOwnerSlotFrom_eq hne probes, nextSlot, after]

theorem ownerSlotForAllocationFrom_eq (hne : owner ≠ kernelOwnerNone) : ∀ probes index,
    t.ownerSlotForAllocationFrom owner frameCount probes index =
      (firstFrom t.ownerSlotCapacity (t.stopsAt owner) probes index).bind fun i =>
        if (t.ledgers i).owner = owner ∧
          frameCount > (t.totalFrames + 2 ^ 32 - (t.ledgers i).frameCount) % 2 ^ 32 then none
        else some i
  | 0, _ => rfl
  | probes + 1, index => by
    rw [ownerSlotForAllocationFrom, firstFrom]
    simp only [stopsAt, KernelOwnerLedger.key_eq_none, KernelOwnerLedger.key_eq_some]
    by_cases howner : (t.ledgers index).owner = owner
    · simp [howner, hne]
    · by_cases hnone : (t.ledgers index).owner = kernelOwnerNone
      · simp [hnone, hne.symm]
      · simp [hnone, howner, ownerSlotForAllocationFrom_eq hne probes, nextSlot, after]

theorem findOwnerSlotFrom_none : ∀ probes index,
    t.findOwnerSlotFrom kernelOwnerNone probes index = none
  | 0, _ => rfl
  | probes + 1, index => by
    rw [findOwnerSlotFrom]
    split_ifs
    · rfl
    · exact findOwnerSlotFrom_none probes _

theorem ownerSlotForAllocation_eq_some (hne : owner ≠ kernelOwnerNone)
    (hslot : t.ownerSlotForAllocation owner frameCount = some slot) :
    slot < t.ownerSlotCapacity ∧ t.stopsAt owner slot = true ∧
      ∀ i < t.ownerSlotCapacity,
        gap t.ownerSlotCapacity (owner % t.ownerSlotCapacity) i <
          gap t.ownerSlotCapacity (owner % t.ownerSlotCapacity) slot →
        t.stopsAt owner i = false := by
  unfold ownerSlotForAllocation at hslot
  split_ifs at hslot with hcap
  rw [ownerSlotForAllocationFrom_eq hne, ownerSlotStart_eq hcap] at hslot
  obtain ⟨i, hi, hif⟩ := Option.bind_eq_some_iff.1 hslot
  split_ifs at hif
  cases hif
  exact (firstFrom_eq_some (Nat.mod_lt owner (by omega))).1 hi

namespace ProbesOwners

variable (h : t.ProbesOwners)
include h

theorem findOwnerSlot_eq_some : t.findOwnerSlot owner = some slot ↔
    owner ≠ kernelOwnerNone ∧ slot < t.ownerSlotCapacity ∧ (t.ledgers slot).owner = owner := by
  by_cases hne : owner = kernelOwnerNone
  · subst hne
    simp [findOwnerSlot, findOwnerSlotFrom_none]
  unfold findOwnerSlot
  by_cases hcap : t.ownerSlotCapacity = 0
  · simp [hcap]
  rw [if_neg hcap, findOwnerSlotFrom_eq hne, ownerSlotStart_eq hcap]
  have hhome : ∀ k, k % t.ownerSlotCapacity < t.ownerSlotCapacity := fun k =>
    Nat.mod_lt k (by omega)
  constructor
  · intro hfind
    obtain ⟨i, hi, hif⟩ := Option.bind_eq_some_iff.1 hfind
    split_ifs at hif with howner
    cases hif
    exact ⟨hne, ((firstFrom_eq_some (hhome owner)).1 hi).1, howner⟩
  · rintro ⟨-, hslot, howner⟩
    have hfirst := h.firstFrom hhome hslot (KernelOwnerLedger.key_eq_some.2 ⟨hne, howner⟩)
    rw [show t.stopsAt owner = fun j => decide (key (t.ledgers j) = none ∨
      key (t.ledgers j) = some owner) from rfl, hfirst]
    simp [howner]

theorem ownerSlotForAllocation_present (hne : owner ≠ kernelOwnerNone)
    (hslot : t.ownerSlotForAllocation owner frameCount = some slot) {i : ℕ}
    (hi : i < t.ownerSlotCapacity) (howner : (t.ledgers i).owner = owner) : slot = i := by
  have hcap : t.ownerSlotCapacity ≠ 0 := by omega
  have hhome : ∀ k, k % t.ownerSlotCapacity < t.ownerSlotCapacity := fun k =>
    Nat.mod_lt k (by omega)
  have hfirst := h.firstFrom hhome hi (KernelOwnerLedger.key_eq_some.2 ⟨hne, howner⟩)
  have hspec := (firstFrom_eq_some (hhome owner)).2
    (ownerSlotForAllocation_eq_some hne hslot)
  exact Option.some.inj (hspec.symm.trans hfirst)

theorem congr (hcap : t'.ownerSlotCapacity = t.ownerSlotCapacity)
    (howner : ∀ i, (t'.ledgers i).owner = (t.ledgers i).owner) : t'.ProbesOwners := by
  unfold ProbesOwners
  rw [hcap]
  exact Findable.congr h fun i _ => KernelOwnerLedger.key_congr (howner i)

theorem setLedger_congr {ledger : KernelOwnerLedger}
    (howner : ledger.owner = (t.ledgers slot).owner) : (t.setLedger slot ledger).ProbesOwners := by
  refine h.congr rfl fun i => ?_
  rcases eq_or_ne i slot with rfl | hi
  · simp [setLedger, howner]
  · simp [setLedger, update_of_ne hi]

theorem setLedger_fresh (hne : owner ≠ kernelOwnerNone)
    (hslot : t.ownerSlotForAllocation owner frameCount = some slot)
    (hempty : (t.ledgers slot).owner = kernelOwnerNone) :
    (t.setLedger slot (.fresh owner)).ProbesOwners := by
  obtain ⟨hlt, -, hway⟩ := ownerSlotForAllocation_eq_some hne hslot
  refine Findable.insert h (k := owner) (KernelOwnerLedger.key_eq_some.2 ⟨hne, rfl⟩)
    (KernelOwnerLedger.key_eq_none.2 hempty) (fun i hi hi' => ?_) fun i hi hgap => ?_
  · obtain ⟨-, howner⟩ := KernelOwnerLedger.key_eq_some.1 hi'
    obtain rfl := h.ownerSlotForAllocation_present hne hslot hi howner
    exact hne (howner.symm.trans hempty)
  · have := hway i hi hgap
    simp only [stopsAt, decide_eq_false_iff_not, not_or] at this
    exact this.1

theorem claimSlot (hne : owner ≠ kernelOwnerNone)
    (hslot : t.findOwnerSlot owner = some slot ∨
      t.ownerSlotForAllocation owner frameCount = some slot) :
    (t.claimSlot slot owner).ProbesOwners := by
  unfold KernelOwnerTable.claimSlot
  split_ifs with hempty
  · rcases hslot with hslot | hslot
    · obtain ⟨-, -, howner⟩ := h.findOwnerSlot_eq_some.1 hslot
      exact absurd (howner.symm.trans hempty) hne
    · exact (h.setLedger_fresh hne hslot hempty).congr rfl fun _ => rfl
  · exact h

theorem linkOwnerFrame (frame : ℕ) (hne : owner ≠ kernelOwnerNone)
    (hslot : t.findOwnerSlot owner = some slot ∨
      t.ownerSlotForAllocation owner frameCount = some slot) :
    (t.linkOwnerFrame slot frame owner).ProbesOwners :=
  ((h.claimSlot hne hslot).setLedger_congr (by simp)).congr rfl fun _ => rfl

theorem unlinkOwnerFrame {frame : ℕ} (hunlink : t.unlinkOwnerFrame slot frame = some t') :
    t'.ProbesOwners := by
  unfold KernelOwnerTable.unlinkOwnerFrame at hunlink
  split_ifs at hunlink
  cases hunlink
  refine h.congr rfl fun i => ?_
  rcases eq_or_ne i slot with rfl | hi
  · simp [setLedger]
  · simp [setLedger, update_of_ne hi]

theorem protectSlot (slot : ℕ) : (t.protectSlot slot).ProbesOwners := by
  unfold KernelOwnerTable.protectSlot
  split_ifs
  · exact h
  · exact (h.setLedger_congr (by simp)).congr rfl fun _ => rfl

theorem protectOwner (owner : ℕ) : (t.kernelMemoryProtectOwner owner).2.ProbesOwners := by
  unfold kernelMemoryProtectOwner
  split_ifs with hne
  · exact h
  split
  · exact h.protectSlot _
  · rename_i habsent
    split
    · exact h
    · rename_i slot hslot
      have hspec := ownerSlotForAllocation_eq_some hne hslot
      have hempty : (t.ledgers slot).owner = kernelOwnerNone := by
        by_contra htaken
        have hstop := hspec.2.1
        simp only [stopsAt, KernelOwnerLedger.key_eq_none, KernelOwnerLedger.key_eq_some,
          decide_eq_true_eq] at hstop
        obtain howner := (hstop.resolve_left htaken).2
        rw [h.findOwnerSlot_eq_some.2 ⟨hne, hspec.1, howner⟩] at habsent
        simp at habsent
      have hfresh : ProbesOwners { t.setLedger slot (.fresh owner) with
          ownerSlotsUsed := t.ownerSlotsUsed + 1 } :=
        (h.setLedger_fresh hne hslot hempty).congr rfl fun _ => rfl
      exact hfresh.protectSlot _

end ProbesOwners

theorem ProbesOwners.ledger_eq_some (h : t.ProbesOwners) {ledger : KernelOwnerLedger} :
    (t.findOwnerSlot owner).map t.ledgers = some ledger ↔
      ledger.owner = owner ∧ ledger ∈ Entries key t.ownerSlotCapacity t.ledgers
        t.ownerSlotCapacity := by
  constructor
  · intro hfind
    obtain ⟨slot, hslot, rfl⟩ := Option.map_eq_some_iff.1 hfind
    obtain ⟨hne, hlt, howner⟩ := h.findOwnerSlot_eq_some.1 hslot
    refine ⟨howner, fun hnone => hne ?_, slot, hlt, by omega, rfl⟩
    exact howner.symm.trans (KernelOwnerLedger.key_eq_none.1 hnone)
  · rintro ⟨rfl, hkey, slot, hlt, -, rfl⟩
    rw [h.findOwnerSlot_eq_some.2 ⟨fun hnone => hkey (KernelOwnerLedger.key_eq_none.2 hnone),
      hlt, rfl⟩]
    rfl

/-! ## Deletion -/

theorem removeOwnerSlotFrom_full : ∀ (rounds : ℕ) {t : KernelOwnerTable} {hole scan : ℕ},
    scan < t.ownerSlotCapacity → (∀ i < t.ownerSlotCapacity, (t.ledgers i).owner ≠ kernelOwnerNone) →
    removeOwnerSlotFrom rounds t hole scan = none
  | 0, _, _, _, _, _ => rfl
  | rounds + 1, t, hole, scan, hscan, hfull => by
    have hnext : t.nextSlot scan < t.ownerSlotCapacity := after_lt hscan
    rw [removeOwnerSlotFrom, if_neg (hfull scan hscan)]
    dsimp only
    split_ifs
    · refine removeOwnerSlotFrom_full rounds hnext fun i hi => ?_
      rcases eq_or_ne i hole with rfl | hih
      · simpa [setLedger] using hfull scan hscan
      · simpa [setLedger, update_of_ne hih] using hfull i hi
    · exact removeOwnerSlotFrom_full rounds hnext hfull

theorem removeOwnerSlotFrom_ends : ∀ (rounds : ℕ) {t : KernelOwnerTable} {hole scan e : ℕ},
    Closing key (· % t.ownerSlotCapacity) t.ownerSlotCapacity t.ledgers hole scan →
    e < t.ownerSlotCapacity → (t.ledgers e).key = none →
    gap t.ownerSlotCapacity scan e < rounds →
    ∃ t', removeOwnerSlotFrom rounds t hole scan = some t' ∧ t'.ProbesOwners ∧
      t'.ownerSlotCapacity = t.ownerSlotCapacity ∧
      Entries key t.ownerSlotCapacity t'.ledgers t.ownerSlotCapacity =
        Entries key t.ownerSlotCapacity t.ledgers hole
  | rounds + 1, t, hole, scan, e, h, he, hfree, hrounds => by
    have hhome : ∀ k, k % t.ownerSlotCapacity < t.ownerSlotCapacity := fun k =>
      Nat.mod_lt k (by omega)
    rw [removeOwnerSlotFrom]
    split
    · rename_i hempty
      exact ⟨_, rfl, h.closed hhome (KernelOwnerLedger.key_eq_none.2 hempty) rfl, rfl,
        entries_free rfl⟩
    · rename_i htaken
      have hk : (t.ledgers scan).key = some (t.ledgers scan).owner :=
        KernelOwnerLedger.key_eq_some.2 ⟨htaken, rfl⟩
      have hne : scan ≠ e := by
        rintro rfl
        rw [hfree] at hk
        simp at hk
      have hnear := gap_of_after h.scan_lt he hne
      dsimp only
      split
      · rename_i hcross
        have hhole : e ≠ hole := by
          rintro rfl
          exact h.hole_taken hfree
        obtain ⟨t', ht', hprobes, hcap, hentries⟩ :=
          removeOwnerSlotFrom_ends rounds (t := t.setLedger hole (t.ledgers scan)) (e := e)
            (h.move hk hcross) he
            (by simpa [setLedger, update_of_ne hhole] using hfree)
            (by change gap t.ownerSlotCapacity (after t.ownerSlotCapacity scan) e < rounds; omega)
        refine ⟨t', ht', hprobes, hcap, hentries.trans ?_⟩
        exact entries_move h.hole_lt h.scan_lt h.ne
      · rename_i hstay
        exact removeOwnerSlotFrom_ends rounds (h.pass hk hstay he hfree) he hfree
          (by change gap t.ownerSlotCapacity (after t.ownerSlotCapacity scan) e < rounds; omega)

theorem removeOwnerSlotFrom_mono : ∀ {rounds rounds' : ℕ} {t : KernelOwnerTable} {hole scan : ℕ},
    rounds ≤ rounds' → removeOwnerSlotFrom rounds t hole scan = some t' →
    removeOwnerSlotFrom rounds' t hole scan = some t'
  | rounds + 1, rounds' + 1, t, hole, scan, hle, h => by
    rw [removeOwnerSlotFrom] at h ⊢
    dsimp only at h ⊢
    split_ifs at h ⊢
    · exact h
    · exact removeOwnerSlotFrom_mono (by omega) h
    · exact removeOwnerSlotFrom_mono (by omega) h

section Removal

variable (h : t.ProbesOwners) (hslot : slot < t.ownerSlotCapacity)
  (htaken : (t.ledgers slot).owner ≠ kernelOwnerNone)
include hslot htaken

theorem removeOwnerSlot_taken (rounds : ℕ) :
    t.removeOwnerSlot rounds slot = removeOwnerSlotFrom rounds t slot (t.nextSlot slot) :=
  if_neg (by omega)

theorem removeOwnerSlot_full
    (hfull : ∀ i < t.ownerSlotCapacity, (t.ledgers i).owner ≠ kernelOwnerNone) (rounds : ℕ) :
    t.removeOwnerSlot rounds slot = none := by
  rw [removeOwnerSlot_taken hslot htaken]
  exact removeOwnerSlotFrom_full rounds (after_lt hslot) hfull

include h

theorem removeOwnerSlot_ends {e : ℕ} (he : e < t.ownerSlotCapacity)
    (hfree : (t.ledgers e).owner = kernelOwnerNone) :
    ∃ t', t.removeOwnerSlot t.ownerSlotCapacity slot = some t' ∧ t'.ProbesOwners ∧
      t'.ownerSlotCapacity = t.ownerSlotCapacity ∧
      Entries key t.ownerSlotCapacity t'.ledgers t.ownerSlotCapacity =
        Entries key t.ownerSlotCapacity t.ledgers slot := by
  have hne : slot ≠ e := by
    rintro rfl
    exact htaken hfree
  have hkey : (t.ledgers slot).key ≠ none := fun hnone =>
    htaken (KernelOwnerLedger.key_eq_none.1 hnone)
  rw [removeOwnerSlot_taken hslot htaken]
  exact removeOwnerSlotFrom_ends _ (Findable.closing h (by omega) hslot hkey) he
    (KernelOwnerLedger.key_eq_none.2 hfree) (gap_lt (after_lt hslot) he)

theorem removeOwnerSlot_keeps {rounds : ℕ} (hremove : t.removeOwnerSlot rounds slot = some t') :
    t'.ProbesOwners ∧ t'.findOwnerSlot (t.ledgers slot).owner = none ∧
      ∀ owner ≠ (t.ledgers slot).owner,
        (t'.findOwnerSlot owner).map t'.ledgers = (t.findOwnerSlot owner).map t.ledgers := by
  have hsome : ∃ e < t.ownerSlotCapacity, (t.ledgers e).owner = kernelOwnerNone := by
    by_contra hfull
    push Not at hfull
    rw [removeOwnerSlot_full hslot htaken hfull] at hremove
    simp at hremove
  obtain ⟨e, he, hfree⟩ := hsome
  obtain ⟨t'', ht'', hprobes, hcap, hentries⟩ := removeOwnerSlot_ends h hslot htaken he hfree
  obtain rfl : t' = t'' := by
    rw [removeOwnerSlot_taken hslot htaken] at hremove ht''
    have h1 := removeOwnerSlotFrom_mono (Nat.le_max_left rounds t.ownerSlotCapacity) hremove
    have h2 := removeOwnerSlotFrom_mono (Nat.le_max_right rounds t.ownerSlotCapacity) ht''
    exact Option.some.inj (h1.symm.trans h2)
  have hgone : ∀ ledger ∈ Entries key t.ownerSlotCapacity t.ledgers slot,
      ledger.owner ≠ (t.ledgers slot).owner := by
    rintro ledger ⟨-, i, hi, his, rfl⟩ howner
    have hk : (t.ledgers slot).key = some (t.ledgers slot).owner :=
      KernelOwnerLedger.key_eq_some.2 ⟨htaken, rfl⟩
    exact his (h.unique i hi slot hslot _ ((KernelOwnerLedger.key_congr howner).trans hk) hk)
  refine ⟨hprobes, ?_, fun owner howner => ?_⟩
  · rw [← Option.map_eq_none_iff (f := t'.ledgers), Option.eq_none_iff_forall_not_mem]
    intro ledger hledger
    obtain ⟨howner, hmem⟩ := hprobes.ledger_eq_some.1 hledger
    rw [hcap, hentries] at hmem
    exact hgone ledger hmem howner
  · ext ledger
    rw [hprobes.ledger_eq_some, h.ledger_eq_some, hcap, hentries]
    refine and_congr_right fun hledger => ⟨?_, ?_⟩
    · rintro ⟨hkey, i, hi, his, rfl⟩
      exact ⟨hkey, i, hi, by omega, rfl⟩
    · rintro ⟨hkey, i, hi, -, rfl⟩
      refine ⟨hkey, i, hi, ?_, rfl⟩
      rintro rfl
      exact howner hledger.symm

end Removal

variable {n rounds : ℕ}

theorem ProbesOwners.removeOwnerSlot (h : t.ProbesOwners)
    (hremove : t.removeOwnerSlot rounds slot = some t') : t'.ProbesOwners := by
  by_cases hout : slot ≥ t.ownerSlotCapacity ∨ (t.ledgers slot).owner = kernelOwnerNone
  · rw [KernelOwnerTable.removeOwnerSlot, if_pos hout] at hremove
    exact Option.some.inj hremove ▸ h
  · push Not at hout
    exact (removeOwnerSlot_keeps h hout.1 hout.2 hremove).1

theorem ProbesOwners.unprotectOwner (h : t.ProbesOwners)
    {r : Bool × KernelOwnerTable} (hr : t.kernelMemoryUnprotectOwner rounds owner = some r) :
    r.2.ProbesOwners := by
  unfold kernelMemoryUnprotectOwner at hr
  split_ifs at hr
  · exact Option.some.inj hr ▸ h
  split at hr
  · exact Option.some.inj hr ▸ h
  · rename_i slot _
    split_ifs at hr
    · have hset : (t.setLedger slot ((t.ledgers slot).setProtected false)).ProbesOwners :=
        h.setLedger_congr (by simp)
      unfold unprotectSlot at hr
      split_ifs at hr
      · exact Option.some.inj hr ▸ hset
      · obtain ⟨t', ht', rfl⟩ := Option.map_eq_some_iff.1 hr
        have hcount : ProbesOwners { t.setLedger slot ((t.ledgers slot).setProtected false) with
            protectedOwners := t.protectedOwners - 1 } := hset.congr rfl fun _ => rfl
        exact hcount.removeOwnerSlot ht'
      · rw [← Option.some.inj hr]
        exact hset.congr rfl fun _ => rfl
    · exact Option.some.inj hr ▸ h

theorem probesOwners_of_reachable (h : KernelOwnerTableReachable t) : t.ProbesOwners := by
  induction h with
  | init totalFrames =>
    exact ⟨fun _ _ _ hk => by simp [init, key, KernelOwnerLedger.empty] at hk,
      fun _ _ _ _ _ hk => by simp [init, key, KernelOwnerLedger.empty] at hk⟩
  | protect owner _ ih => exact ih.protectOwner owner
  | unprotect _ hr ih => exact ih.unprotectOwner hr
  | link frame _ hne hslot ih => exact ih.linkOwnerFrame frame hne hslot
  | unlink _ _ hunlink ih => exact ih.unlinkOwnerFrame hunlink
  | remove _ _ _ _ hremove ih => exact ih.removeOwnerSlot hremove

structure ProtectedUpTo (t : KernelOwnerTable) (n k : ℕ) : Prop where
  reachable : KernelOwnerTableReachable t
  capacity : t.ownerSlotCapacity = n
  owners : t.protectedOwners = k
  ledger : ∀ i < n, t.ledgers i =
    if i < k then (KernelOwnerLedger.fresh (n + i)).setProtected true else .empty

theorem ProtectedUpTo.next {k : ℕ} (h : ProtectedUpTo t n k) (hk : k < n) :
    ProtectedUpTo (t.kernelMemoryProtectOwner (n + k)).2 n (k + 1) := by
  have hcap := h.capacity
  have hne : n + k ≠ kernelOwnerNone := by
    change n + k ≠ 0
    omega
  have hempty : (t.ledgers k).owner = kernelOwnerNone := by
    rw [h.ledger k hk, if_neg (by omega)]
    rfl
  have hstart : t.ownerSlotStart (n + k) = k := by
    rw [ownerSlotStart_eq (by omega), hcap, Nat.add_mod_left, Nat.mod_eq_of_lt hk]
  obtain ⟨m, rfl⟩ : ∃ m, n = m + 1 := ⟨n - 1, by omega⟩
  have hfind : t.findOwnerSlot (m + 1 + k) = none := by
    rw [findOwnerSlot, if_neg (by omega), hstart, hcap, findOwnerSlotFrom, if_pos hempty]
  have halloc : t.ownerSlotForAllocation (m + 1 + k) 0 = some k := by
    rw [ownerSlotForAllocation, if_neg (by omega), hstart, hcap, ownerSlotForAllocationFrom,
      if_neg (by rw [hempty]; exact hne.symm), if_pos hempty]
  have hfresh : (KernelOwnerLedger.fresh (m + 1 + k)).isProtected = false := by
    simp [KernelOwnerLedger.fresh, KernelOwnerLedger.isProtected]
  have hresult : (t.kernelMemoryProtectOwner (m + 1 + k)).2 =
      { t.setLedger k ((KernelOwnerLedger.fresh (m + 1 + k)).setProtected true) with
        ownerSlotsUsed := t.ownerSlotsUsed + 1
        protectedOwners := t.protectedOwners + 1 } := by
    rw [kernelMemoryProtectOwner, if_neg hne, hfind]
    simp [halloc, protectSlot, setLedger, hfresh]
  refine ⟨.protect _ h.reachable, ?_, ?_, fun i hi => ?_⟩ <;> rw [hresult]
  · exact hcap
  · exact congrArg (· + 1) h.owners
  · rcases eq_or_ne i k with rfl | hik
    · simp [setLedger]
    · have hlt : i < k + 1 ↔ i < k := by omega
      simp [setLedger, update_of_ne hik, h.ledger i hi, hlt]

theorem exists_protectedUpTo (n : ℕ) : ∀ k ≤ n, ∃ t, ProtectedUpTo t n k
  | 0, _ => ⟨.init n, .init n, rfl, rfl, fun i _ => rfl⟩
  | k + 1, hk => by
    obtain ⟨t, ht⟩ := exists_protectedUpTo n k (by omega)
    exact ⟨_, ht.next (by omega)⟩

theorem ProtectedUpTo.unprotect_never (h : ProtectedUpTo t n n) {i : ℕ} (hi : i < n)
    (rounds : ℕ) : t.kernelMemoryUnprotectOwner rounds (n + i) = none := by
  have hcap := h.capacity
  have howner : ∀ j < n, (t.ledgers j).owner = n + j := fun j hj => by
    rw [h.ledger j hj, if_pos hj]
    simp [KernelOwnerLedger.fresh]
  have hne : ∀ j, n + j ≠ kernelOwnerNone := fun j => by
    change n + j ≠ 0
    omega
  have hfind : t.findOwnerSlot (n + i) = some i :=
    (probesOwners_of_reachable h.reachable).findOwnerSlot_eq_some.2
      ⟨hne i, by omega, howner i hi⟩
  have hprotected : (t.ledgers i).isProtected = true := by
    rw [h.ledger i hi, if_pos hi]
    simp [KernelOwnerLedger.isProtected, KernelOwnerLedger.setProtected, KernelOwnerLedger.fresh]
  have hcount : (t.ledgers i).frameCount = 0 := by
    rw [h.ledger i hi, if_pos hi]
    rfl
  rw [kernelMemoryUnprotectOwner, if_neg (hne i), hfind]
  simp only [hprotected, ↓reduceIte, unprotectSlot, hcount]
  rw [if_neg (by rw [h.owners]; omega), Option.map_eq_none_iff]
  have howner' : ∀ j < n, ((t.setLedger i ((t.ledgers i).setProtected false)).ledgers j).owner =
      n + j := fun j hj => by
    rcases eq_or_ne j i with rfl | hji
    · simp [setLedger, howner j hj]
    · simp [setLedger, update_of_ne hji, howner j hj]
  refine removeOwnerSlot_full (by change i < t.ownerSlotCapacity; omega) ?_ (fun j hj => ?_) rounds
  · rw [howner' i hi]
    exact hne i
  · rw [howner' j (by change j < t.ownerSlotCapacity at hj; omega)]
    exact hne j

end KernelOwnerTable

end Astra
