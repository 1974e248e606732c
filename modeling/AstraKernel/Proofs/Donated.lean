import AstraKernel.Chains
import AstraKernel.Proofs.Queued

/-!
# Priorities follow the wait owners

`Donated p D dirty loose` says that the donor lists `D` hold the threads that name each receiver as
their owner, that following the owners ends, and that every thread but the `dirty` one has been
given the greatest of its donors' priorities. Carrying a change up the owners leaves no thread
dirty. The donation of the `loose` thread is being taken apart.
-/

namespace Astra

open Function List

/-- The wait that a donor donates for: a call it is blocked in, or the one queue of a mutex. -/
def WaitsFor (p : Pool) (t : Slot) (kind : KernelThreadDonation) : Prop :=
  kind = .call ∧ p.call t ≠ 0 ∧ (p.waits.row (t, 0)).queue = some (.call t) ∨
  kind = .mutex ∧ p.waits.waitMemberCount t = 1 ∧ (p.waits.row (t, 0)).queue ≠ none

/-- The greatest of the effective priorities of the threads of a list. -/
def maxEffective (eff : Slot → ℕ) : List Slot → ℕ
  | [] => 0
  | t :: l => max (eff t) (maxEffective eff l)

variable {eff : Slot → ℕ} {b : ℕ}

theorem maxEffective_le : ∀ {l : List Slot}, maxEffective eff l ≤ b ↔ ∀ t ∈ l, eff t ≤ b
  | [] => by simp [maxEffective]
  | t :: l => by simp [maxEffective, maxEffective_le (l := l)]

theorem maxEffective_congr {eff' : Slot → ℕ} :
    ∀ {l : List Slot}, (∀ t ∈ l, eff' t = eff t) → maxEffective eff' l = maxEffective eff l
  | [], _ => rfl
  | t :: l, h => by
    rw [maxEffective, maxEffective, h t mem_cons_self,
      maxEffective_congr fun s hs => h s (mem_cons_of_mem _ hs)]

theorem maxEffective_lt (hb : 0 < b) :
    ∀ {l : List Slot}, (∀ t ∈ l, eff t < b) → maxEffective eff l < b
  | [], _ => hb
  | t :: _, h => max_lt (h t mem_cons_self)
      (maxEffective_lt hb fun s hs => h s (mem_cons_of_mem _ hs))

structure Donated (p : Pool) (D : Slot → List Slot) (dirty loose : Option Slot) : Prop where
  lists : LinkedLists p.donors.waitDonorNext p.donors.waitDonorPrevious p.donors.waitDonorHead D
  owner : ∀ t r, p.donors.waitOwnerSlot t = some r ↔ t ∈ D r
  free : ∀ t, p.donors.waitOwnerSlot t = none →
    p.donors.waitOwnerId t = 0 ∧ p.donors.donationKind t = .none
  ends : ∀ r, ∀ t ∈ D r, validThread p t ∧ validThread p r ∧ p.state r ≠ .dead
    ∧ p.state t = .blocked ∧ p.donors.waitOwnerId t = p.id r
  kind : ∀ r, ∀ t ∈ D r, loose ≠ some t → WaitsFor p t (p.donors.donationKind t)
  grounded : Grounded p.donors.waitOwnerSlot
  id : ∀ t, validThread p t → p.id t ≠ 0
  exact : ∀ r, validThread p r → dirty ≠ some r →
    p.prio.donatedPriority r = maxEffective p.prio.effectivePriority (D r)

section Refresh

variable {p : Pool} {R : ℕ → List Slot} {Q : QueueRef → List Registration}
  {S : Finset Registration} {D : Slot → List Slot} {limbo dirty loose : Option Slot} {t r : Slot}

section

variable (h : Donated p D dirty loose)
include h

theorem Donated.waitOwner_eq (t : Slot) : waitOwner p t = p.donors.waitOwnerSlot t := by
  unfold waitOwner
  rcases ho : p.donors.waitOwnerSlot t with _ | r
  · rw [if_pos (h.free t ho).1]
  · obtain ⟨-, hr, -, -, hid⟩ := h.ends r t ((h.owner t r).1 ho)
    have hne : p.donors.waitOwnerId t ≠ 0 := by rw [hid]; exact h.id r hr
    rw [if_neg hne]
    simp [hr, hid]

theorem Donated.ownerId_eq_zero (t : Slot) :
    p.donors.waitOwnerId t = 0 ↔ p.donors.waitOwnerSlot t = none := by
  refine ⟨fun hz => ?_, fun hn => (h.free t hn).1⟩
  by_contra hne
  obtain ⟨r, hr⟩ := Option.ne_none_iff_exists'.1 hne
  obtain ⟨-, hv, -, -, hid⟩ := h.ends r t ((h.owner t r).1 hr)
  exact h.id r hv (hid ▸ hz)

theorem Donated.not_self (t : Slot) : t ∉ D t := by
  intro ht
  obtain ⟨l, hl⟩ := h.grounded t
  exact (hl.notMem ((h.owner t t).2 ht)) hl.head_mem

end

variable {l : List Slot} {prio : PriorityTable} {w : WaitTable}

theorem row_queue_eq {w' : WaitTable} {Q' : QueueRef → List Registration}
    {S' : Finset Registration} (h : WaitShape w Q S) (h' : WaitShape w' Q' S')
    (hQ : ∀ q r, r ∈ Q' q ↔ r ∈ Q q) (r : Registration) :
    (w'.row r).queue = (w.row r).queue := by
  refine Option.ext fun q => ?_
  have h1 := h.queued r q
  have h2 := h'.queued r q
  simp only [h1, h2, hQ]

theorem Donated.moved (h : Donated p D dirty loose) {rq : ReadyQueues} (hF : p.waits.Frame w)
    (hq : ∀ r, (w.row r).queue = (p.waits.row r).queue) {dirty' : Option Slot}
    (hE : ∀ r, validThread p r → dirty' ≠ some r →
      prio.donatedPriority r = maxEffective prio.effectivePriority (D r)) :
    Donated (p.move prio rq w) D dirty' loose := by
  refine ⟨h.lists, h.owner, h.free, h.ends, fun r t ht hl => ?_, h.grounded, h.id, hE⟩
  have := h.kind r t ht hl
  simp only [WaitsFor, Pool.move, hq, hF.members] at this ⊢
  exact this

theorem not_donorCorrupt (hQ : Queued p R Q S limbo) (h : Donated p D dirty loose) (ht : t ∈ D r)
    (hk : loose ≠ some t) : ¬ donorCorrupt p r t := by
  obtain ⟨hv, -, -, hb, hid⟩ := h.ends r t ht
  have ho := (h.owner t r).2 ht
  unfold donorCorrupt
  rcases h.kind r t ht hk with ⟨h1, h2, h3⟩ | ⟨h1, h2, h3⟩
  · have hmem := (hQ.waits.queued _ _).1 h3
    have hcount : (p.waits.queue (.call t)).count ≠ 0 := by
      rw [hQ.waits.count]
      exact fun he => by simp [eq_nil_of_length_eq_zero he] at hmem
    simp [hv, ho, hid, hb, h1, h2, hcount]
  · have hrow := hQ.row t hv (by omega)
    simp [hv, ho, hid, hb, h1, h2, h3, hrow]

theorem Donated.length_le (hQ : Queued p R Q S limbo) (h : Donated p D dirty loose) (r : Slot) :
    (D r).length ≤ p.threadSlots := by
  rw [← toFinset_card_of_nodup (h.lists.nodup r), ← Finset.card_range p.threadSlots]
  refine Finset.card_le_card fun t ht => Finset.mem_range.2 (hQ.slot t ?_)
  exact (h.ends r t (mem_toFinset.1 ht)).1

theorem donatedPriorityOf_spec (hQ : Queued p R Q S limbo) (h : Donated p D dirty loose)
    (hk : ∀ t ∈ D r, loose ≠ some t) : ∀ (fuel : ℕ) (m l : List Slot) (acc : ℕ), D r = l ++ m →
      m.length ≤ fuel → donatedPriorityOf p r fuel m.head? acc
        = some (max acc (maxEffective p.prio.effectivePriority m))
  | _, [], _, acc, _, _ => by simp [donatedPriorityOf, maxEffective]
  | 0, _ :: _, _, _, _, hf => by simp at hf
  | fuel + 1, t :: m, l, acc, hD, hf => by
    have ht : t ∈ D r := by simp [hD]
    have hD' : D r = (l ++ [t]) ++ m := by simpa using hD
    have ih := donatedPriorityOf_spec hQ h hk fuel m (l ++ [t])
      (max acc (p.prio.effectivePriority t)) hD' (by simpa using Nat.le_of_succ_le_succ hf)
    rw [List.head?_cons, donatedPriorityOf, if_neg (not_donorCorrupt hQ h ht (hk t ht)),
      (h.lists.at_split hD).1, maxEffective, ← max_assoc, ← ih]
    congr 1
    split_ifs with hlt
    · exact (max_eq_right hlt.le).symm
    · exact (max_eq_left (not_lt.1 hlt)).symm

theorem donatedPriorityOf_head (hQ : Queued p R Q S limbo) (h : Donated p D dirty loose)
    (hk : ∀ t ∈ D r, loose ≠ some t) :
    donatedPriorityOf p r p.threadSlots (p.donors.waitDonorHead r) 0
      = some (maxEffective p.prio.effectivePriority (D r)) := by
  rw [h.lists.head, donatedPriorityOf_spec hQ h hk _ (D r) [] 0 rfl (h.length_le hQ r),
    Nat.zero_max]

structure PriorityTable.SameOwn (prio prio' : PriorityTable) : Prop where
  base : prio'.basePriority = prio.basePriority
  inherited : prio'.inheritedPriority = prio.inheritedPriority
  throttled : prio'.budgetThrottled = prio.budgetThrottled

theorem PriorityTable.SameOwn.refl (prio : PriorityTable) : prio.SameOwn prio :=
  ⟨rfl, rfl, rfl⟩

theorem PriorityTable.SameOwn.trans {a b c : PriorityTable} (h : a.SameOwn b) (h' : b.SameOwn c) :
    a.SameOwn c :=
  ⟨h'.base.trans h.base, h'.inherited.trans h.inherited, h'.throttled.trans h.throttled⟩

theorem PriorityTable.sameOwn_change (prio : PriorityTable) (t : Slot) (d : ℕ) :
    prio.SameOwn (prio.change t (prio.basePriority t) (prio.inheritedPriority t) d
      (prio.budgetThrottled t)) := by
  refine ⟨?_, ?_, ?_⟩ <;> simp [PriorityTable.change, PriorityTable.set, PriorityTable.setEffective]

def Pool.settle (p : Pool) (prio : PriorityTable) (rq : ReadyQueues) (w : WaitTable)
    (dn : DonorTable) : Pool :=
  { p with prio := prio, ready := rq, waits := w, donors := dn }

/-- Priorities and donors change, threads move within and between their queues, and nothing else
happens. -/
structure Settled (p p' : Pool) (S : Finset Registration) (D' : Slot → List Slot)
    (limbo loose : Option Slot) : Prop where
  moved : ∃ prio rq w dn, p' = p.settle prio rq w dn ∧ p.waits.Frame w
    ∧ ∀ r, (w.row r).queue = (p.waits.row r).queue
  queued : ∃ R' Q', Queued p' R' Q' S limbo
  donated : Donated p' D' none loose

structure Refreshed (p p' : Pool) (S : Finset Registration) (D' : Slot → List Slot)
    (limbo loose : Option Slot) : Prop extends Settled p p' S D' limbo loose where
  own : p.prio.SameOwn p'.prio

theorem Refreshed.of_eq (hQ : Queued p R Q S limbo) (h : Donated p D none loose) :
    Refreshed p p S D limbo loose :=
  ⟨⟨⟨p.prio, p.ready, p.waits, p.donors, rfl, .refl _, fun _ => rfl⟩, ⟨R, Q, hQ⟩, h⟩, .refl _⟩

theorem Settled.trans {p₁ p₂ : Pool} {D₁ D₂ : Slot → List Slot} {loose' : Option Slot}
    (h : Settled p p₁ S D₁ limbo loose) (h' : Settled p₁ p₂ S D₂ limbo loose') :
    Settled p p₂ S D₂ limbo loose' := by
  obtain ⟨⟨prio, rq, w, dn, rfl, h2, h3⟩, -, -⟩ := h
  obtain ⟨⟨prio', rq', w', dn', rfl, h2', h3'⟩, hq, hd⟩ := h'
  exact ⟨⟨prio', rq', w', dn', rfl, h2.trans h2', fun r => (h3' r).trans (h3 r)⟩, hq, hd⟩

theorem Refreshed.trans {p₁ p₂ : Pool} {D₁ D₂ : Slot → List Slot} {loose' : Option Slot}
    (h : Refreshed p p₁ S D₁ limbo loose) (h' : Refreshed p₁ p₂ S D₂ limbo loose') :
    Refreshed p p₂ S D₂ limbo loose' :=
  ⟨h.toSettled.trans h'.toSettled, h.own.trans h'.own⟩

/-- A thread taken off its ready list keeps its effective priority if its donors are below its own
priorities. -/
def Undisturbed (p : Pool) (D : Slot → List Slot) (limbo : Option Slot) (r : Slot) : Prop :=
  limbo = some r → p.state r = .ready → p.suspended r = false →
    p.prio.effectivePriority r = priorityEffective (p.prio.basePriority r)
      (p.prio.inheritedPriority r) (maxEffective p.prio.effectivePriority (D r))
      (p.prio.budgetThrottled r)

theorem refreshStep_spec (hQ : Queued p R Q S limbo) (h : Donated p D (some r) loose)
    (hv : validThread p r) (hd : p.state r ≠ .dead) (hk : ∀ t ∈ D r, loose ≠ some t)
    (hlim : Undisturbed p D limbo r) :
    ∃ prio rq w R' Q',
      changePriority p r (p.prio.basePriority r) (p.prio.inheritedPriority r)
        (maxEffective p.prio.effectivePriority (D r)) (p.prio.budgetThrottled r)
        = (.ok, p.move prio rq w) ∧
      p.prio.SameOwn prio ∧ p.waits.Frame w ∧ Queued (p.move prio rq w) R' Q' S limbo ∧
      (∀ q r, r ∈ Q' q ↔ r ∈ Q q) ∧
      (∀ x, x ≠ r → prio.effectivePriority x = p.prio.effectivePriority x
        ∧ prio.donatedPriority x = p.prio.donatedPriority x) ∧
      (maxEffective p.prio.effectivePriority (D r) ≤ p.prio.donatedPriority r →
        prio.effectivePriority r ≤ p.prio.effectivePriority r) ∧
      Donated (p.move prio rq w) D
        (if p.prio.effectivePriority r = prio.effectivePriority r then none
          else p.donors.waitOwnerSlot r) loose := by
  have hdon : maxEffective p.prio.effectivePriority (D r) < kernelThreadPriorityLevels :=
    maxEffective_lt (by decide) fun t ht => hQ.effective_lt (h.ends r t ht).1
  obtain ⟨rq, w, R', Q', h1, h2, h3, h4⟩ := changePriority_spec hQ hv hd (hQ.base r hv)
    (hQ.inherited r hv) hdon hlim
  have hne : ∀ x, x ≠ r → _ = p.prio.effectivePriority x := fun x hx =>
    (p.prio.change_effective x (p.prio.basePriority r) (p.prio.inheritedPriority r)
      (maxEffective p.prio.effectivePriority (D r)) (p.prio.budgetThrottled r)).trans (if_neg hx)
  refine ⟨_, rq, w, R', Q', h1, p.prio.sameOwn_change r _, h2, h3, h4,
    fun x hx => ⟨hne x hx, update_of_ne hx ..⟩, fun hle => ?_, ?_⟩
  · rw [PriorityTable.change_effective, if_pos rfl, hQ.effective r hv]
    exact max_le_max le_rfl hle
  refine h.moved h2 (row_queue_eq hQ.waits h3.waits h4) fun x hx hdx => ?_
  rcases eq_or_ne x r with rfl | hxr
  · have hself : ∀ t ∈ D x, t ≠ x := by
      rintro t ht rfl
      exact h.not_self t ht
    rw [maxEffective_congr fun t ht => hne t (hself t ht)]
    simp [PriorityTable.change, PriorityTable.set, PriorityTable.setEffective]
  · have hD : maxEffective (p.prio.change r (p.prio.basePriority r) (p.prio.inheritedPriority r)
        (maxEffective p.prio.effectivePriority (D r))
        (p.prio.budgetThrottled r)).effectivePriority (D x)
        = maxEffective p.prio.effectivePriority (D x) := by
      refine maxEffective_congr fun t ht => ?_
      rcases eq_or_ne t r with rfl | htr
      · split_ifs at hdx with he
        · exact he.symm
        · exact absurd ((h.owner t x).2 ht) hdx
      · exact hne t htr
    rw [hD, ← h.exact x hx (by simpa using Ne.symm hxr)]
    simp [PriorityTable.change, PriorityTable.set, PriorityTable.setEffective, hxr]

def Clear (p : Pool) (limbo : Option Slot) (x : Slot) : Prop :=
  limbo = some x → p.state x = .ready → p.suspended x = true

theorem Clear.undisturbed (h : Clear p limbo r) : Undisturbed p D limbo r :=
  fun hl hs hu => absurd (h hl hs) (by simp [hu])

theorem lower_effective {b : Prop}
    (h : ∀ x, x ≠ r → prio.effectivePriority x = p.prio.effectivePriority x
      ∧ prio.donatedPriority x = p.prio.donatedPriority x)
    (hr : b → prio.effectivePriority r ≤ p.prio.effectivePriority r) (hb : b) (x : Slot) :
    prio.effectivePriority x ≤ p.prio.effectivePriority x := by
  rcases eq_or_ne x r with rfl | hx
  · exact hr hb
  · exact (h x hx).1.le

theorem maxEffective_mono {eff eff' : Slot → ℕ} (h : ∀ t ∈ l, eff t ≤ eff' t) :
    maxEffective eff l ≤ maxEffective eff' l :=
  maxEffective_le.2 fun t ht => (h t ht).trans (maxEffective_le.1 le_rfl t ht)

theorem refreshOwners_spec {f : Slot → Option Slot} (hl : Chain f r l) :
    ∀ {p : Pool} {R : ℕ → List Slot} {Q : QueueRef → List Registration} (depth : ℕ),
      p.donors.waitOwnerSlot = f → l.length ≤ depth → Queued p R Q S limbo →
      Donated p D (some r) loose → validThread p r → p.state r ≠ .dead →
      (∀ x ∈ l, ∀ t ∈ D x, loose ≠ some t) → Undisturbed p D limbo r →
      (∀ x ∈ l, x ≠ r → Clear p limbo x) →
      ∃ p', refreshOwners depth p (some r) = (.ok, p') ∧ Refreshed p p' S D limbo loose ∧
        (maxEffective p.prio.effectivePriority (D r) ≤ p.prio.donatedPriority r →
          ∀ x, p'.prio.effectivePriority x ≤ p.prio.effectivePriority x) := by
  induction hl with
  | @last r hr =>
    intro p R Q depth hf hlen hQ h hv hd hk hlim hclear
    obtain ⟨depth, rfl⟩ : ∃ n, depth = n + 1 := ⟨depth - 1, by simp at hlen; omega⟩
    obtain ⟨prio, rq, w, R', Q', h1, h2, h3, h4, h5, h6, hlow, h7⟩ := refreshStep_spec hQ h hv hd
      (hk r mem_cons_self) hlim
    rw [hf, hr, ite_self] at h7
    refine ⟨p.move prio rq w, ?_, ⟨⟨⟨prio, rq, w, p.donors, rfl, h3,
      row_queue_eq hQ.waits h4.waits h5⟩, ⟨R', Q', h4⟩, h7⟩, h2⟩, lower_effective h6 hlow⟩
    have ho : waitOwner (p.move prio rq w) r = none := by
      rw [h7.waitOwner_eq]
      exact (congrFun hf r).trans hr
    rw [refreshOwners, if_neg (by simp [hv, hd]),
      donatedPriorityOf_head hQ h (hk r mem_cons_self)]
    simp only [h1, Result.andThen_ok, ho]
    split_ifs with he hz
    · rfl
    · exact absurd ((h7.ownerId_eq_zero r).2 ((congrFun hf r).trans hr)) hz.1
    · cases depth <;> rfl
  | @step r y l hr hl ih =>
    intro p R Q depth hf hlen hQ h hv hd hk hlim hclear
    obtain ⟨depth, rfl⟩ : ∃ n, depth = n + 1 := ⟨depth - 1, by simp at hlen; omega⟩
    obtain ⟨prio, rq, w, R', Q', h1, h2, h3, h4, h5, h6, hlow, h7⟩ := refreshStep_spec hQ h hv hd
      (hk r mem_cons_self) hlim
    have hry : p.donors.waitOwnerSlot r = some y := (congrFun hf r).trans hr
    have ho : waitOwner (p.move prio rq w) r = some y := by
      rw [h7.waitOwner_eq]
      exact hry
    obtain ⟨-, hvy, hdy, -, -⟩ := h.ends y r ((h.owner r y).1 hry)
    rw [refreshOwners, if_neg (by simp [hv, hd]),
      donatedPriorityOf_head hQ h (hk r mem_cons_self)]
    simp only [h1, Result.andThen_ok, ho]
    split at h7
    · rename_i he
      exact ⟨p.move prio rq w, if_pos he, ⟨⟨⟨prio, rq, w, p.donors, rfl, h3,
        row_queue_eq hQ.waits h4.waits h5⟩, ⟨R', Q', h4⟩, h7⟩, h2⟩, lower_effective h6 hlow⟩
    · rename_i he
      rw [hry] at h7
      have hmem : ∀ x ∈ l, x ∈ r :: l := fun x hx => mem_cons_of_mem _ hx
      have hne : ∀ x ∈ l, x ≠ r := fun x hx hxr => (Chain.notMem hl hr) (hxr ▸ hx)
      have hcl : ∀ x ∈ l, Clear (p.move prio rq w) limbo x := fun x hx =>
        hclear x (hmem x hx) (hne x hx)
      obtain ⟨p', h8, h9, hlow'⟩ := ih (p := p.move prio rq w) depth hf (by simpa using hlen) h4 h7 hvy hdy
        (fun x hx => hk x (hmem x hx)) (hcl y hl.head_mem).undisturbed (fun x hx _ => hcl x hx)
      obtain ⟨prio', rq', w', dn, rfl, h11, h12⟩ := h9.moved
      refine ⟨_, ?_, ⟨⟨⟨prio', rq', w', dn, rfl, h3.trans h11, fun a =>
        (h12 a).trans (row_queue_eq hQ.waits h4.waits h5 a)⟩, h9.queued, h9.donated⟩,
        h2.trans h9.own⟩, fun hle => ?_⟩
      have he' : ¬ p.prio.effectivePriority r = (p.move prio rq w).prio.effectivePriority r := he
      · rw [if_neg he', if_neg (by simp)]
        exact h8
      · have hx := lower_effective h6 hlow hle
        have hyr : y ≠ r := hne y hl.head_mem
        refine fun x => (hlow' ?_ x).trans (hx x)
        calc maxEffective prio.effectivePriority (D y)
            ≤ maxEffective p.prio.effectivePriority (D y) := maxEffective_mono fun t _ => hx t
          _ = p.prio.donatedPriority y := (h.exact y hvy (by simpa using Ne.symm hyr)).symm
          _ = prio.donatedPriority y := (h6 y hyr).2.symm

theorem Donated.chain_length_le (hQ : Queued p R Q S limbo) (h : Donated p D dirty loose)
    (hv : validThread p r) (hl : Chain p.donors.waitOwnerSlot r l) :
    l.length ≤ p.threadSlots := by
  rw [← Finset.card_range p.threadSlots]
  refine hl.length_le (Finset.mem_range.2 (hQ.slot r hv)) fun x y hxy => ?_
  exact Finset.mem_range.2 (hQ.slot y (h.ends y x ((h.owner x y).1 hxy)).2.1)

theorem refreshWaitOwners_spec (hQ : Queued p R Q S limbo) (h : Donated p D (some r) loose)
    (hv : validThread p r) (hd : p.state r ≠ .dead)
    (hk : ∀ x, ∀ t ∈ D x, loose ≠ some t) (hlim : Undisturbed p D limbo r)
    (hclear : ∀ x, x ≠ r → p.donors.waitOwnerSlot r ≠ none → Clear p limbo x) :
    ∃ p', refreshWaitOwners p (some r) = (.ok, p') ∧ Refreshed p p' S D limbo loose ∧
      (maxEffective p.prio.effectivePriority (D r) ≤ p.prio.donatedPriority r →
        ∀ x, p'.prio.effectivePriority x ≤ p.prio.effectivePriority x) := by
  obtain ⟨l, hl⟩ := h.grounded r
  refine refreshOwners_spec hl p.threadSlots rfl (h.chain_length_le hQ hv hl) hQ h hv hd
    (fun x _ => hk x) hlim fun x hx hxr => hclear x hxr fun hn => hxr ?_
  rw [hl.unique (.last hn)] at hx
  simpa using hx

end Refresh

section Drop

variable {p : Pool} {R : ℕ → List Slot} {Q : QueueRef → List Registration}
  {S : Finset Registration} {D : Slot → List Slot} {limbo dirty loose : Option Slot} {t r : Slot}

theorem Queued.of_donors (h : Queued p R Q S limbo) (dn : DonorTable) :
    Queued { p with donors := dn } R Q S limbo :=
  { h with }

theorem Donated.unlink (h : Donated p D none loose) (ht : t ∈ D r) :
    Donated { p with donors := p.donors.unlink t r } (fun x => (D x).filter (· ≠ t)) (some r)
      (if loose = some t then none else loose) := by
  obtain ⟨l, m, hD⟩ := append_of_mem ht
  obtain ⟨hnext, hprev⟩ := h.lists.at_split hD
  obtain ⟨htl, htm⟩ := h.lists.notMem_split hD
  obtain ⟨dn, hdn⟩ : ∃ dn, dn = p.donors.unlink t r := ⟨_, rfl⟩
  have hslot : dn.waitOwnerSlot = update p.donors.waitOwnerSlot t none := by
    rw [hdn]
    unfold DonorTable.unlink
    rw [hnext, hprev]
    rcases l.getLast? with _ | a <;> rcases m.head? with _ | b <;> rfl
  have hid : dn.waitOwnerId = update p.donors.waitOwnerId t 0 := by
    rw [hdn]
    unfold DonorTable.unlink
    rw [hnext, hprev]
    rcases l.getLast? with _ | a <;> rcases m.head? with _ | b <;> rfl
  have hkind : dn.donationKind = update p.donors.donationKind t .none := by
    rw [hdn]
    unfold DonorTable.unlink
    rw [hnext, hprev]
    rcases l.getLast? with _ | a <;> rcases m.head? with _ | b <;> rfl
  have hmem : ∀ x y, y ∈ (D x).filter (· ≠ t) ↔ y ∈ D x ∧ y ≠ t := fun x y => by simp
  have hlists : LinkedLists dn.waitDonorNext dn.waitDonorPrevious dn.waitDonorHead
      fun x => (D x).filter (· ≠ t) := by
    rw [← h.lists.update_cut hD]
    refine h.lists.remove hD ?_ ?_ (fun y hy => ?_) (fun y hy => ?_) ?_ fun j hj => ?_
    all_goals
      rw [hdn]
      unfold DonorTable.unlink
      rw [hnext, hprev]
    · rcases l.getLast? with _ | a <;> rcases m.head? with _ | b <;> simp
    · rcases l.getLast? with _ | a <;> rcases m.head? with _ | b <;> simp
    · rcases l.getLast? with _ | a <;> rcases m.head? with _ | b <;>
        simp [update_apply, hy, eq_comm]
    · rcases l.getLast? with _ | a <;> rcases m.head? with _ | b <;>
        simp [update_apply, hy, eq_comm]
    · have hhead := h.lists.head r
      rw [hD] at hhead
      rcases l with _ | ⟨a, l⟩
      · rcases m with _ | ⟨b, m⟩ <;> simp
      · rw [List.getLast?_cons]
        rcases m.head? with _ | b <;> simpa using hhead
    · rcases l.getLast? with _ | a <;> rcases m.head? with _ | b <;> simp [hj]
  rw [← hdn]
  refine ⟨hlists, fun x y => ?_, fun x hx => ?_, fun x y hy => ?_, fun x y hy hl => ?_, ?_, h.id,
    fun x hx hxr => ?_⟩
  · simp only [hslot, hmem, ← h.owner, update_apply]
    split_ifs with hxt <;> simp [hxt]
  · simp only [hslot, hid, hkind, update_apply] at hx ⊢
    split_ifs with hxt
    · exact ⟨rfl, rfl⟩
    · rw [if_neg hxt] at hx
      exact h.free x hx
  · obtain ⟨hy', hyt⟩ := (hmem x y).1 hy
    obtain ⟨h1, h2, h3, h4, h5⟩ := h.ends x y hy'
    refine ⟨h1, h2, h3, h4, ?_⟩
    simp only [hid, update_of_ne hyt]
    exact h5
  · obtain ⟨hy', hyt⟩ := (hmem x y).1 hy
    have hl' : loose ≠ some y := by
      split_ifs at hl with hlt
      · rw [hlt]
        simpa using Ne.symm hyt
      · exact hl
    have := h.kind x y hy' hl'
    simp only [WaitsFor, hkind, update_of_ne hyt] at this ⊢
    exact this
  · simp only [hslot]
    refine h.grounded.mono fun x => ?_
    rw [update_apply]
    split_ifs
    · exact .inl rfl
    · exact .inr rfl
  · have hDx : (D x).filter (· ≠ t) = D x := by
      refine filter_eq_self.2 fun y hy => ?_
      have : y ≠ t := by
        rintro rfl
        exact hxr (congrArg some (h.lists.disjoint x r y hy ht).symm)
      simpa using this
    simp only [hDx]
    exact h.exact x hx (by simp)

/-- A thread in limbo off its ready list is only ever the receiver whose donors are dropped, and
none of its donors is above its own priorities. -/
def Quiet (p : Pool) (limbo : Option Slot) (r : Slot) : Prop :=
  ∀ x, limbo = some x → p.state x = .ready → p.suspended x = false → r = x ∧
    p.prio.effectivePriority x = priorityEffective (p.prio.basePriority x)
      (p.prio.inheritedPriority x) 0 (p.prio.budgetThrottled x)

theorem Donated.owner_none (h : Donated p D dirty loose) (hs : p.state t ≠ .blocked) :
    p.donors.waitOwnerSlot t = none := by
  by_contra hne
  obtain ⟨r, hr⟩ := Option.ne_none_iff_exists'.1 hne
  exact hs (h.ends r t ((h.owner t r).1 hr)).2.2.2.1

theorem effective_of_le (hQ : Queued p R Q S limbo) (hv : validThread p r)
    (he : p.prio.effectivePriority r = priorityEffective (p.prio.basePriority r)
      (p.prio.inheritedPriority r) 0 (p.prio.budgetThrottled r)) {d : ℕ}
    (hd : d ≤ p.prio.donatedPriority r) :
    p.prio.effectivePriority r = priorityEffective (p.prio.basePriority r)
      (p.prio.inheritedPriority r) d (p.prio.budgetThrottled r) := by
  refine le_antisymm ?_ ?_
  · rw [he]
    exact max_le_max le_rfl (Nat.zero_le d)
  · rw [hQ.effective r hv]
    exact max_le_max le_rfl hd

theorem dropWaitOwner_spec (hQ : Queued p R Q S limbo) (h : Donated p D none loose)
    (hl : loose = none ∨ loose = some t)
    (hq : ∀ r, p.donors.waitOwnerSlot t = some r → Quiet p limbo r) :
    ∃ p', dropWaitOwner p t = (.ok, p') ∧
      Refreshed p p' S (fun x => (D x).filter (· ≠ t)) limbo none ∧
      ∀ x, p'.prio.effectivePriority x ≤ p.prio.effectivePriority x := by
  unfold dropWaitOwner
  rcases ho : p.donors.waitOwnerSlot t with _ | r
  · have hoff : ∀ x, t ∉ D x := fun x hx => by
      rw [(h.owner t x).2 hx] at ho
      exact absurd ho (by simp)
    have hD : (fun x => (D x).filter (· ≠ t)) = D := by
      funext x
      refine filter_eq_self.2 fun y hy => ?_
      simpa using fun he : y = t => hoff x (he ▸ hy)
    obtain ⟨hnext, hprev⟩ := h.lists.off t hoff
    obtain ⟨hid, hkind⟩ := h.free t ho
    rw [if_pos hid, if_pos ⟨rfl, hprev, hnext, hkind⟩, hD]
    refine ⟨p, rfl, .of_eq hQ { h with kind := fun x y hy _ => h.kind x y hy ?_ }, fun _ => le_rfl⟩
    rcases hl with rfl | rfl
    · simp
    · simpa using fun he : t = y => hoff x (he ▸ hy)
  · have ht := (h.owner t r).1 ho
    obtain ⟨hvt, hvr, hdr, -, -⟩ := h.ends r t ht
    obtain ⟨l, m, hD⟩ := append_of_mem ht
    obtain ⟨hnext, hprev⟩ := h.lists.at_split hD
    have hlinks : ¬ donorLinksCorrupt p t r := by
      have hval : ∀ y ∈ D r, validThread p y := fun y hy => (h.ends r y hy).1
      unfold donorLinksCorrupt
      rw [hnext, hprev, not_or]
      constructor
      · rcases hlast : l.getLast? with _ | a
        · obtain rfl := List.getLast?_eq_none_iff.1 hlast
          simp [h.lists.head, hD]
        · have ha : a ∈ D r := by
            rw [hD]
            exact mem_append_left _ (mem_of_getLast? hlast)
          simp [hval a ha, (h.lists.at_cut hD).1 a hlast]
      · rintro ⟨b, hb, hbad⟩
        have hbD : b ∈ D r := by
          rw [hD]
          exact mem_append_right _ (mem_cons_of_mem _ (mem_of_head? hb))
        have hD' : D r = (l ++ [t]) ++ m := by simpa using hD
        have hpb := (h.lists.at_cut hD').2 b hb
        simp [hval b hbD, hpb] at hbad
    have hun := h.unlink ht
    have hloose : (if loose = some t then none else loose) = none := by
      rcases hl with rfl | rfl <;> simp
    rw [hloose] at hun
    have hle : maxEffective p.prio.effectivePriority ((D r).filter (· ≠ t))
        ≤ p.prio.donatedPriority r := by
      rw [h.exact r hvr (by simp), maxEffective_le]
      exact fun y hy => maxEffective_le.1 le_rfl y (mem_filter.1 hy).1
    obtain ⟨p', h1, h2, h3⟩ := refreshWaitOwners_spec (hQ.of_donors (p.donors.unlink t r)) hun hvr
      hdr (by simp) (fun hlr hs hu => effective_of_le hQ hvr (hq r ho r hlr hs hu).2 hle)
      (fun x hxr hor hlx hs => by
        by_contra hu
        obtain ⟨rfl, -⟩ := hq r ho x hlx hs (by simpa using hu)
        exact hxr rfl)
    rw [if_neg (mt (h.ownerId_eq_zero t).1 (by simp [ho])), h.waitOwner_eq, ho]
    simp only [hlinks, if_false]
    obtain ⟨⟨⟨prio, rq, w, dn, rfl, h4⟩, h5, h6⟩, h7⟩ := h2
    exact ⟨_, h1, ⟨⟨⟨prio, rq, w, dn, rfl, h4⟩, h5, h6⟩, h7⟩, h3 hle⟩

theorem Quiet.refreshed {p' : Pool} {D' : Slot → List Slot} (h : Quiet p limbo r)
    (hlv : ∀ x, limbo = some x → validThread p x) (hr : Refreshed p p' S D' limbo loose)
    (hle : ∀ x, p'.prio.effectivePriority x ≤ p.prio.effectivePriority x) : Quiet p' limbo r := by
  have hown := hr.own
  obtain ⟨R', Q', hQ'⟩ := hr.queued
  obtain ⟨prio, rq, w, dn, rfl, -, -⟩ := hr.moved
  intro x hx hs hu
  obtain ⟨hrx, he⟩ := h x hx hs hu
  refine ⟨hrx, le_antisymm ?_ ?_⟩
  · have := hle x
    rw [he] at this
    rwa [hown.base, hown.inherited, hown.throttled]
  · rw [hQ'.effective x (hlv x hx)]
    exact max_le_max le_rfl (Nat.zero_le _)

theorem withdrawDonors_spec (hlv : ∀ x, limbo = some x → validThread p x) :
    ∀ (fuel : ℕ) {p₁ : Pool} {R : ℕ → List Slot} {Q : QueueRef → List Registration}
      {D : Slot → List Slot}, p₁.occupied = p.occupied → Queued p₁ R Q S limbo →
      Donated p₁ D none none → Quiet p₁ limbo r → (D r).length ≤ fuel →
      ∃ p', withdrawDonors r fuel p₁ = (.ok, p') ∧ Refreshed p₁ p' S (update D r []) limbo none ∧
        ∀ x, p'.prio.effectivePriority x ≤ p₁.prio.effectivePriority x := by
  intro fuel
  induction fuel with
  | zero =>
    intro p₁ R Q D _ hQ h _ hlen
    have hD : D r = [] := eq_nil_of_length_eq_zero (Nat.le_zero.1 hlen)
    have hhead : p₁.donors.waitDonorHead r = none := by rw [h.lists.head, hD]; rfl
    refine ⟨p₁, by simp [withdrawDonors, hhead], ?_, fun _ => le_rfl⟩
    rw [← hD, update_eq_self]
    exact .of_eq hQ h
  | succ fuel ih =>
    intro p₁ R Q D hocc hQ h hq hlen
    rcases hD : D r with _ | ⟨t, m⟩
    · have hhead : p₁.donors.waitDonorHead r = none := by rw [h.lists.head, hD]; rfl
      refine ⟨p₁, by simp [withdrawDonors, hhead], ?_, fun _ => le_rfl⟩
      rw [← hD, update_eq_self]
      exact .of_eq hQ h
    · have hhead : p₁.donors.waitDonorHead r = some t := by rw [h.lists.head, hD]; rfl
      have ht : t ∈ D r := by simp [hD]
      obtain ⟨hvt, hvr, -⟩ := h.ends r t ht
      obtain ⟨p₂, h1, h2, h3⟩ := dropWaitOwner_spec hQ h (.inl rfl) fun r' hr' => by
        obtain rfl := h.lists.disjoint r r' t ht ((h.owner t r').1 hr')
        exact hq
      have hlv₁ : ∀ x, limbo = some x → validThread p₁ x := fun x hx => by
        unfold validThread
        rw [hocc]
        exact hlv x hx
      obtain ⟨R', Q', hQ'⟩ := h2.queued
      have hcut := h.lists.update_cut (l := []) (m := m) (x := t) hD
      rw [nil_append] at hcut
      have hlen' : ((D r).filter (· ≠ t)).length ≤ fuel := by
        rw [← congrFun hcut r, update_self]
        simpa [hD] using hlen
      have hocc' : p₂.occupied = p.occupied := by
        obtain ⟨prio, rq, w, dn, rfl, -⟩ := h2.moved
        exact hocc
      obtain ⟨p', h4, h5, h6⟩ := ih hocc' hQ' h2.donated (hq.refreshed hlv₁ h2 h3) hlen'
      rw [← hcut, update_idem] at h5
      refine ⟨p', ?_, h2.trans h5, fun x => (h6 x).trans (h3 x)⟩
      unfold withdrawDonors
      simp only [hhead, hvt, not_true, if_false, h1, Result.orCorrupt_ok, h4]

theorem withdrawWaitDonors_spec (hQ : Queued p R Q S limbo) (h : Donated p D none none)
    (hlv : ∀ x, limbo = some x → validThread p x) (hq : Quiet p limbo r) :
    ∃ p', withdrawWaitDonors p r = (.ok, p') ∧ Refreshed p p' S (update D r []) limbo none ∧
      ∀ x, p'.prio.effectivePriority x ≤ p.prio.effectivePriority x :=
  withdrawDonors_spec hlv p.threadSlots rfl hQ h hq (h.length_le hQ r)

end Drop

end Astra
