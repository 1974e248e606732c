import AstraKernel.Proofs.Donated
import AstraKernel.Thread.Block

/-!
# Changing a priority, and changing an owner

`changeAndRefresh` and `assignWaitOwner` keep every thread on its queues and every priority exact.
An owner is never assigned where it would close a cycle.
-/

namespace Astra

open Function

variable {p : Pool} {R : ℕ → List Slot} {Q : QueueRef → List Registration}
  {S : Finset Registration} {D : Slot → List Slot} {t r : Slot}

theorem quiet_none (p : Pool) (r : Slot) : Quiet p none r :=
  fun x hx => absurd hx (by simp)

theorem clear_none (p : Pool) (x : Slot) : Clear p none x :=
  fun hx => absurd hx (by simp)

theorem changeAndRefresh_spec (hQ : Queued p R Q S none) (h : Donated p D none none) (t : Slot)
    (b i : ℕ) (th : Bool) :
    (∃ p', changeAndRefresh p t b i th = (.ok, p') ∧ Settled p p' S D none none) ∨
      ∃ status, status ≠ .ok ∧ status ≠ .corrupt ∧ changeAndRefresh p t b i th = (status, p) := by
  by_cases hbad : ¬ validThread p t ∨ kernelThreadPriorityLevels ≤ b
      ∨ kernelThreadPriorityLevels ≤ i ∨ kernelThreadPriorityLevels ≤ p.prio.donatedPriority t
  · refine .inr ⟨.invalidArgument, by simp, by simp, ?_⟩
    rw [changeAndRefresh, changePriority, if_pos hbad]
    rfl
  by_cases hdead : p.state t = .dead
  · refine .inr ⟨.invalidState, by simp, by simp, ?_⟩
    rw [changeAndRefresh, changePriority, if_neg hbad, if_pos hdead]
    rfl
  left
  push Not at hbad
  obtain ⟨hv, hb, hi, hd⟩ := hbad
  obtain ⟨rq, w, R', Q', h1, h2, h3, h4⟩ := changePriority_spec hQ hv hdead hb hi hd (by simp)
  obtain ⟨prio, hprio⟩ : ∃ prio, prio = p.prio.change t b i (p.prio.donatedPriority t) th :=
    ⟨_, rfl⟩
  rw [← hprio] at h1 h3
  have hne : ∀ x, x ≠ t → prio.effectivePriority x = p.prio.effectivePriority x := fun x hx => by
    rw [hprio, PriorityTable.change_effective, if_neg hx]
  have hdon : prio.donatedPriority = p.prio.donatedPriority := by
    rw [hprio]
    simp [PriorityTable.change, PriorityTable.set, PriorityTable.setEffective]
  have hrows := row_queue_eq hQ.waits h3.waits h4
  have hexact : ∀ x, validThread p x →
      (p.prio.effectivePriority t = prio.effectivePriority t ∨ p.donors.waitOwnerSlot t ≠ some x) →
      prio.donatedPriority x = maxEffective prio.effectivePriority (D x) := by
    intro x hx ho
    rw [hdon, h.exact x hx (by simp)]
    refine (maxEffective_congr fun y hy => ?_).symm
    rcases eq_or_ne y t with rfl | hyt
    · rcases ho with he | ho
      · exact he.symm
      · exact absurd ((h.owner y x).2 hy) ho
    · exact hne y hyt
  unfold changeAndRefresh
  simp only [h1, Result.andThen_ok]
  split
  · rename_i he
    exact ⟨_, rfl, ⟨prio, rq, w, p.donors, rfl, h2, hrows⟩, ⟨R', Q', h3⟩,
      h.moved h2 hrows fun x hx _ => hexact x hx (.inl he)⟩
  · have hD : Donated (p.move prio rq w) D (p.donors.waitOwnerSlot t) none :=
      h.moved h2 hrows fun x hx hdx => hexact x hx (.inr hdx)
    rw [hD.waitOwner_eq]
    rcases ho : p.donors.waitOwnerSlot t with _ | y
    · have ho' : (p.move prio rq w).donors.waitOwnerSlot t = none := ho
      rw [ho']
      refine ⟨p.move prio rq w, ?_, ⟨prio, rq, w, p.donors, rfl, h2, hrows⟩, ⟨R', Q', h3⟩,
        ho ▸ hD⟩
      unfold refreshWaitOwners
      cases (p.move prio rq w).threadSlots <;> rfl
    · have ho' : (p.move prio rq w).donors.waitOwnerSlot t = some y := ho
      rw [ho']
      rw [ho] at hD
      obtain ⟨-, hvy, hdy, -, -⟩ := h.ends y t ((h.owner t y).1 ho)
      obtain ⟨p', h5, h6, -⟩ := refreshWaitOwners_spec h3 hD hvy hdy (by simp)
        (clear_none _ _).undisturbed fun x _ _ => clear_none _ x
      refine ⟨p', h5, ?_⟩
      obtain ⟨⟨prio', rq', w', dn, rfl, h7, h8⟩, h9, h10⟩ := h6.toSettled
      exact ⟨⟨prio', rq', w', dn, rfl, h2.trans h7, fun a => (h8 a).trans (hrows a)⟩, h9, h10⟩

theorem assignCycle_spec (h : Donated p D none none) {l : List Slot}
    (hl : Chain p.donors.waitOwnerSlot r l) (caller : Slot) : ∀ depth, l.length ≤ depth →
      assignCycle p caller depth (some r) = some (decide (caller ∈ l)) := by
  induction hl with
  | @last r hr =>
    intro depth hd
    obtain ⟨depth, rfl⟩ : ∃ n, depth = n + 1 := ⟨depth - 1, by simp at hd; omega⟩
    unfold assignCycle
    have hz := (h.ownerId_eq_zero r).2 hr
    rw [h.waitOwner_eq, hr]
    rcases eq_or_ne r caller with rfl | hne
    · simp
    · cases depth <;> simp [hne, Ne.symm hne, hz, assignCycle]
  | @step r y l hr hl ih =>
    intro depth hd
    obtain ⟨depth, rfl⟩ : ∃ n, depth = n + 1 := ⟨depth - 1, by simp at hd; omega⟩
    unfold assignCycle
    rw [h.waitOwner_eq, hr, ih depth (by simpa using hd)]
    rcases eq_or_ne r caller with rfl | hne
    · simp
    · simp [hne, Ne.symm hne]

theorem Donated.link (h : Donated p D none none) {l : List Slot} {kind : KernelThreadDonation}
    (hl : Chain p.donors.waitOwnerSlot r l) (htl : t ∉ l) (hvt : validThread p t)
    (hvr : validThread p r) (hdr : p.state r ≠ .dead) (hb : p.state t = .blocked)
    (hk : WaitsFor p t kind) (ht : p.donors.waitOwnerSlot t = none) :
    Donated { p with donors := p.donors.link t r (p.id r) kind } (update D r (t :: D r)) (some r)
      none := by
  have hoff : ∀ x, t ∉ D x := fun x hx => by
    rw [(h.owner t x).2 hx] at ht
    exact absurd ht (by simp)
  obtain ⟨hnext, hprev⟩ := h.lists.off t hoff
  have hhead := h.lists.head r
  obtain ⟨dn, hdn⟩ : ∃ dn, dn = p.donors.link t r (p.id r) kind := ⟨_, rfl⟩
  have hslot : dn.waitOwnerSlot = update p.donors.waitOwnerSlot t (some r) := by
    rw [hdn]
    unfold DonorTable.link
    cases p.donors.waitDonorHead r <;> rfl
  have hid : dn.waitOwnerId = update p.donors.waitOwnerId t (p.id r) := by
    rw [hdn]
    unfold DonorTable.link
    cases p.donors.waitDonorHead r <;> rfl
  have hkind : dn.donationKind = update p.donors.donationKind t kind := by
    rw [hdn]
    unfold DonorTable.link
    cases p.donors.waitDonorHead r <;> rfl
  have hlists : LinkedLists dn.waitDonorNext dn.waitDonorPrevious dn.waitDonorHead
      (update D r (t :: D r)) := by
    refine h.lists.insert (l := []) rfl hoff ?_ ?_ (fun y hy => ?_) (fun y hy => ?_) ?_
      fun j hj => ?_
    all_goals
      rw [hdn]
      unfold DonorTable.link
      rw [hhead]
    · cases (D r).head? <;> simp
    · cases (D r).head? <;> simp
    · cases (D r).head? <;> simp [hy]
    · cases (D r).head? <;> simp [update_apply, hy, eq_comm]
    · cases (D r).head? <;> simp
    · cases (D r).head? <;> simp [hj]
  have hmem : ∀ x y, y ∈ update D r (t :: D r) x ↔ (y = t ∧ x = r) ∨ y ∈ D x := by
    intro x y
    rcases eq_or_ne x r with rfl | hx
    · simp
    · simp [hx]
  rw [← hdn]
  refine ⟨hlists, fun x y => ?_, fun x hx => ?_, fun x y hy => ?_, fun x y hy _ => ?_, ?_, h.id,
    fun x hx hxr => ?_⟩
  · rw [hmem, ← h.owner, hslot]
    by_cases hxt : x = t
    · subst hxt
      simp [ht, eq_comm]
    · simp [hxt]
  · simp only [hslot, hid, hkind, update_apply] at hx ⊢
    split_ifs at hx with hxt
    simp only [hxt, if_false]
    exact h.free x hx
  · simp only [hid, update_apply]
    rcases (hmem x y).1 hy with ⟨rfl, rfl⟩ | hy'
    · exact ⟨hvt, hvr, hdr, hb, if_pos rfl⟩
    · have hyt : y ≠ t := fun he => hoff x (he ▸ hy')
      rw [if_neg hyt]
      exact h.ends x y hy'
  · simp only [WaitsFor, hkind, update_apply]
    rcases (hmem x y).1 hy with ⟨rfl, rfl⟩ | hy'
    · rw [if_pos rfl]
      exact hk
    · have hyt : y ≠ t := fun he => hoff x (he ▸ hy')
      rw [if_neg hyt]
      exact h.kind x y hy' (by simp)
  · simp only [hslot]
    exact h.grounded.link hl htl
  · have hne : x ≠ r := by simpa using Ne.symm hxr
    simp only [update_of_ne hne]
    exact h.exact x hx (by simp)

theorem Donated.owner_congr {p' : Pool} {D' : Slot → List Slot} {d d' l l' : Option Slot}
    (h : Donated p D d l) (h' : Donated p' D' d' l') {x : Slot}
    (hD : ∀ y, x ∈ D' y ↔ x ∈ D y) : p'.donors.waitOwnerSlot x = p.donors.waitOwnerSlot x := by
  refine Option.ext fun y => ?_
  have h1 := h.owner x y
  have h2 := h'.owner x y
  simp only [h1, h2, hD]

theorem assignWaitOwner_spec (hQ : Queued p R Q S none) (h : Donated p D none none)
    (hvt : validThread p t) (hb : p.state t = .blocked) {receiver : Option Slot}
    {kind : KernelThreadDonation} (hk : WaitsFor p t kind)
    (hr : ∀ r, receiver = some r → validThread p r ∧ p.state r ≠ .dead) :
    ∃ p' D', assignWaitOwner p t receiver kind = (.ok, p') ∧ Settled p p' S D' none none ∧
      (∀ x, x ≠ t → p'.donors.waitOwnerSlot x = p.donors.waitOwnerSlot x) ∧
      ∀ r, p'.donors.waitOwnerSlot t = some r ↔
        receiver = some r ∧ ∀ l, Chain p.donors.waitOwnerSlot r l → t ∉ l := by
  have hget : ¬ (p.donors.waitOwnerId t ≠ 0 ∧ waitOwner p t = none) := by
    rw [h.waitOwner_eq]
    exact fun hz => hz.1 ((h.ownerId_eq_zero t).2 hz.2)
  have hvalid : ¬ (¬ validThread p t ∨ ∃ r ∈ receiver, ¬ validThread p r ∨ p.state r = .dead) := by
    rintro (hn | ⟨r, hm, hn⟩)
    · exact hn hvt
    · exact hn.elim (fun hn => hn (hr r hm).1) (hr r hm).2
  unfold assignWaitOwner
  rw [if_neg hvalid, if_neg hget, h.waitOwner_eq]
  split
  · rename_i hsame
    refine ⟨p, D, rfl, (Refreshed.of_eq hQ h).toSettled, fun _ _ => rfl, fun r => ?_⟩
    rw [hsame.1]
    exact ⟨fun he => ⟨he, fun l hl => hl.notMem (hsame.1.trans he)⟩, And.left⟩
  obtain ⟨p₁, h1, h2, -⟩ := dropWaitOwner_spec (t := t) hQ h (.inl rfl)
    fun r _ => quiet_none p r
  have hD₁ := h2.donated
  have hslot₁ : ∀ x, x ≠ t → p₁.donors.waitOwnerSlot x = p.donors.waitOwnerSlot x := fun x hx =>
    h.owner_congr hD₁ fun y => by simp [hx]
  have hnone₁ : p₁.donors.waitOwnerSlot t = none := by
    by_contra hne
    obtain ⟨y, hy⟩ := Option.ne_none_iff_exists'.1 hne
    simpa using (hD₁.owner t y).1 hy
  have hfree : (∀ r, receiver = some r → ∃ l, Chain p.donors.waitOwnerSlot r l ∧ t ∈ l) →
      ∃ D', Settled p p₁ S D' none none ∧
        (∀ x, x ≠ t → p₁.donors.waitOwnerSlot x = p.donors.waitOwnerSlot x) ∧
        ∀ r, p₁.donors.waitOwnerSlot t = some r ↔
          receiver = some r ∧ ∀ l, Chain p.donors.waitOwnerSlot r l → t ∉ l := by
    refine fun hc => ⟨_, h2.toSettled, hslot₁, fun r => ?_⟩
    rw [hnone₁]
    refine ⟨fun he => absurd he (by simp), fun ⟨he, hno⟩ => ?_⟩
    obtain ⟨l, hl, htl⟩ := hc r he
    exact absurd htl (hno l hl)
  rcases receiver with _ | r
  · obtain ⟨D', hD'⟩ := hfree (by simp)
    refine ⟨p₁, D', ?_, hD'⟩
    have hc : assignCycle p t p.threadSlots none = some false := by
      cases p.threadSlots <;> rfl
    simp only [hc, h1, Result.andThen_ok, Bool.false_eq_true, if_false]
  · obtain ⟨hvr, hdr⟩ := hr r rfl
    obtain ⟨l, hl⟩ := h.grounded r
    have hc := assignCycle_spec h hl t _ (h.chain_length_le hQ hvr hl)
    by_cases htl : t ∈ l
    · obtain ⟨D', hD'⟩ := hfree fun r' hr' => by
        cases hr'
        exact ⟨l, hl, htl⟩
      refine ⟨p₁, D', ?_, hD'⟩
      simp only [hc, htl, decide_true, if_true, h1, Result.andThen_ok]
    · obtain ⟨R₁, Q₁, hQ₁⟩ := h2.queued
      obtain ⟨prio, rq, w, dn, hp₁, hF, hrows⟩ := h2.moved
      have hl₁ : Chain p₁.donors.waitOwnerSlot r l :=
        hl.congr fun z hz => hslot₁ z (ne_of_mem_of_not_mem hz htl)
      have hk₁ : WaitsFor p₁ t kind := by
        rw [hp₁]
        simpa only [WaitsFor, Pool.settle, hF.members, hrows] using hk
      have hv₁ : ∀ x, validThread p x → validThread p₁ x := by
        rw [hp₁]
        exact fun _ hx => hx
      have hs₁ : p₁.state = p.state := by rw [hp₁]; rfl
      have hlink := hD₁.link hl₁ htl (hv₁ t hvt) (hv₁ r hvr) (by rw [hs₁]; exact hdr)
        (by rw [hs₁]; exact hb) hk₁ hnone₁
      obtain ⟨p', h3, h4, -⟩ := refreshWaitOwners_spec
        (hQ₁.of_donors (p₁.donors.link t r (p₁.id r) kind)) hlink (hv₁ r hvr)
        (by simp only [hs₁]; exact hdr) (by simp) (clear_none _ _).undisturbed
        fun x _ _ => clear_none _ x
      have hhead : ¬ ∃ head ∈ p₁.donors.waitDonorHead r,
          ¬ validThread p₁ head ∨ p₁.donors.waitDonorPrevious head ≠ none := by
        rintro ⟨y, hy, hbad⟩
        rw [hD₁.lists.head] at hy
        have hprev := (hD₁.lists.at_cut (i := r) (l := []) rfl).2 y hy
        exact hbad.elim (fun hb => hb (hD₁.ends r y (List.mem_of_head? hy)).1) fun hb => hb hprev
      have hset : Settled p p' S (update (fun x => (D x).filter (· ≠ t)) r
          (t :: (D r).filter (· ≠ t))) none none := by
        obtain ⟨⟨prio', rq', w', dn', rfl, h5, h6⟩, h7, h8⟩ := h4.toSettled
        exact h2.toSettled.trans ⟨⟨prio', rq', w', dn', rfl, h5, h6⟩, h7, h8⟩
      have hmem : ∀ x y, x ∈ update (fun x => (D x).filter (· ≠ t)) r
          (t :: (D r).filter (· ≠ t)) y ↔ (x = t ∧ y = r) ∨ x ∈ D y ∧ x ≠ t := by
        intro x y
        rcases eq_or_ne y r with rfl | hy
        · simp
        · simp [hy]
      refine ⟨p', _, ?_, hset, fun x hx => ?_, fun y => ?_⟩
      · simp only [hc, htl, decide_false, Bool.false_eq_true, if_false, h1, Result.andThen_ok]
        rw [assignLink, if_neg hhead, h3]
      · refine h.owner_congr hset.donated fun y => ?_
        rw [hmem]
        simp [hx]
      · rw [hset.donated.owner, hmem]
        constructor
        · rintro (⟨-, rfl⟩ | ⟨-, hne⟩)
          · exact ⟨rfl, fun l' hl' => hl.unique hl' ▸ htl⟩
          · exact absurd rfl hne
        · rintro ⟨he, -⟩
          exact .inl ⟨rfl, (Option.some.inj he).symm⟩

end Astra
