import AstraKernel.Lists
import AstraKernel.Thread.Wait
import Mathlib.Data.Finset.Prod
import Mathlib.Data.List.Sort

/-!
# What the wait queues hold

`WaitShape w Q S` says that the rows, the queue headers and the counts of `w` hold the queues `Q`,
whose registrations are `S`. A registration is inserted before the first of a lesser effective
priority.
-/

namespace Astra

open Finset Function List

structure WaitShape (w : WaitTable) (Q : QueueRef → List Registration) (S : Finset Registration) :
    Prop where
  lists : LinkedLists (fun r => (w.row r).next) (fun r => (w.row r).previous)
    (fun q => (w.queue q).head) Q
  tail : ∀ q, (w.queue q).tail = (Q q).getLast?
  queued : ∀ r q, (w.row r).queue = some q ↔ r ∈ Q q
  count : ∀ q, (w.queue q).count = (Q q).length
  linked : ∀ r, r ∈ S ↔ ∃ q, r ∈ Q q
  total : w.registrationCount = S.card
  each : ∀ t, w.waitRegistrationCount t = (S.filter (·.1 = t)).card

def WaitLive (p : Pool) (S : Finset Registration) : Prop :=
  ∀ r ∈ S, validThread p r.1 ∧ p.waits.rowAllocated r.1 = true ∧ r.2 < kernelThreadWaitMemberMax

structure WaitTable.Frame (w w' : WaitTable) : Prop where
  rowAllocated : w'.rowAllocated = w.rowAllocated
  members : w'.waitMemberCount = w.waitMemberCount
  mode : w'.waitMode = w.waitMode
  sequence : ∀ q, (w'.queue q).sequence = (w.queue q).sequence

theorem WaitTable.Frame.refl (w : WaitTable) : w.Frame w :=
  ⟨rfl, rfl, rfl, fun _ => rfl⟩

theorem WaitTable.Frame.trans {w w' w'' : WaitTable} (h : w.Frame w') (h' : w'.Frame w'') :
    w.Frame w'' :=
  ⟨h'.rowAllocated.trans h.rowAllocated, h'.members.trans h.members, h'.mode.trans h.mode,
    fun q => (h'.sequence q).trans (h.sequence q)⟩

/-- A queue in the order its registrations are served in. -/
def Served (eff : Slot → ℕ) (l : List Registration) : Prop :=
  l.Pairwise fun a b => eff b.1 ≤ eff a.1

/-- Where `enqueue_wait_registration` puts a registration: behind those of at least its thread's
effective priority. -/
def serveAfter (eff : Slot → ℕ) (r : Registration) (l : List Registration) : List Registration :=
  l.orderedInsert (fun a b => eff b.1 < eff a.1) r

variable {l : List Registration} {r : Registration} {eff : Slot → ℕ}

theorem mem_serveAfter {a : Registration} : a ∈ serveAfter eff r l ↔ a = r ∨ a ∈ l :=
  mem_orderedInsert _

theorem Served.serveAfter :
    ∀ {l : List Registration}, Served eff l → Served eff (serveAfter eff r l)
  | [], _ => pairwise_singleton _ _
  | a :: l, h => by
    unfold Astra.serveAfter
    rw [orderedInsert_cons]
    obtain ⟨ha, hl⟩ := pairwise_cons.1 h
    split_ifs with hlt
    · refine pairwise_cons.2 ⟨fun b hb => ?_, h⟩
      rcases mem_cons.1 hb with rfl | hb
      · exact hlt.le
      · exact (ha b hb).trans hlt.le
    · refine pairwise_cons.2 ⟨fun b hb => ?_, Served.serveAfter hl⟩
      rcases mem_serveAfter.1 hb with rfl | hb
      · exact not_lt.1 hlt
      · exact ha b hb

theorem Served.filter (h : Served eff l) (f : Registration → Bool) : Served eff (l.filter f) :=
  List.Pairwise.filter f h

theorem Served.congr {eff' : Slot → ℕ} (h : Served eff l)
    (he : ∀ r ∈ l, eff' r.1 = eff r.1) : Served eff' l :=
  List.Pairwise.imp_of_mem (fun {a b} ha hb hab => by rw [he a ha, he b hb]; exact hab) h

namespace WaitShape

variable {w w' : WaitTable} {Q : QueueRef → List Registration} {S : Finset Registration}

variable {r : Registration}

section

variable (h : WaitShape w Q S)
include h

theorem mem {q : QueueRef} (hr : r ∈ Q q) : r ∈ S :=
  (h.linked r).2 ⟨q, hr⟩

theorem queue_none (hr : r ∉ S) : (w.row r).queue = none := by
  rcases hq : (w.row r).queue with _ | q
  · rfl
  · exact absurd (h.mem ((h.queued r q).1 hq)) hr

theorem exists_queue (hr : r ∈ S) : ∃ q, (w.row r).queue = some q ∧ r ∈ Q q := by
  obtain ⟨q, hq⟩ := (h.linked r).1 hr
  exact ⟨q, (h.queued r q).2 hq, hq⟩

theorem length_le (q : QueueRef) : (Q q).length ≤ S.card := by
  rw [← toFinset_card_of_nodup (h.lists.nodup q)]
  exact card_le_card fun r hr => h.mem (mem_toFinset.1 hr)

end

theorem card_le {p : Pool} (hl : WaitLive p S) (hs : ∀ t, validThread p t → t < p.threadSlots) :
    S.card ≤ p.threadSlots * kernelThreadWaitMemberMax := by
  have hsub : S ⊆ Finset.range p.threadSlots ×ˢ Finset.range kernelThreadWaitMemberMax := by
    intro r hr
    obtain ⟨h1, -, h3⟩ := hl r hr
    exact Finset.mem_product.2 ⟨Finset.mem_range.2 (hs _ h1), Finset.mem_range.2 h3⟩
  simpa using card_le_card hsub

theorem each_lt {p : Pool} (h : WaitShape w Q S) (hl : WaitLive p S) {t : Slot} {m : ℕ}
    (hm : m < kernelThreadWaitMemberMax) (hr : (t, m) ∉ S) :
    w.waitRegistrationCount t < kernelThreadWaitMemberMax := by
  have hsub : insert (t, m) (S.filter (·.1 = t))
      ⊆ (Finset.range kernelThreadWaitMemberMax).image (Prod.mk t) := by
    intro r hr
    rcases mem_insert.1 hr with rfl | hr
    · exact Finset.mem_image.2 ⟨m, Finset.mem_range.2 hm, rfl⟩
    · obtain ⟨hrS, rfl⟩ := mem_filter.1 hr
      exact Finset.mem_image.2 ⟨r.2, Finset.mem_range.2 (hl r hrS).2.2, rfl⟩
  have hcard := (card_le_card hsub).trans card_image_le
  rw [card_insert_of_notMem fun hm => hr (mem_filter.1 hm).1, card_range,
    ← h.each] at hcard
  omega

theorem each_pos (h : WaitShape w Q S) (hr : r ∈ S) : w.waitRegistrationCount r.1 ≠ 0 := by
  rw [h.each]
  exact card_ne_zero_of_mem (mem_filter.2 ⟨hr, rfl⟩)

end WaitShape

theorem registrationThread_live {p : Pool} {S : Finset Registration} (hl : WaitLive p S)
    (hr : r ∈ S) : registrationThread p (some r) = some r.1 := by
  obtain ⟨h1, h2, h3⟩ := hl r hr
  have h3' : r.2 < 255 := h3
  unfold registrationThread
  split_ifs <;> simp_all

theorem validWaitQueueHeader_of {p : Pool} {Q : QueueRef → List Registration}
    {S : Finset Registration} (h : WaitShape p.waits Q S) (hl : WaitLive p S) (q : QueueRef) :
    validWaitQueueHeader p q := by
  unfold validWaitQueueHeader
  rw [h.count, h.total, h.tail, h.lists.head]
  refine ⟨h.length_le q, ?_⟩
  split_ifs with hc
  · simp [eq_nil_of_length_eq_zero hc]
  · have hne : Q q ≠ [] := fun he => hc (by simp [he])
    obtain ⟨a, ha⟩ := Option.isSome_iff_exists.1 (isSome_head?.2 hne)
    obtain ⟨b, hb⟩ := Option.isSome_iff_exists.1 (List.getLast?_isSome.2 hne)
    rw [ha, hb, registrationThread_live hl (h.mem (mem_of_head? ha)),
      registrationThread_live hl (h.mem (mem_of_getLast? hb))]
    simp

theorem waitQueueCount_of {p : Pool} {Q : QueueRef → List Registration}
    {S : Finset Registration} (h : WaitShape p.waits Q S) (hl : WaitLive p S) (q : QueueRef) :
    kernelThreadWaitQueueCount p q = (Q q).length := by
  rw [kernelThreadWaitQueueCount, if_pos (validWaitQueueHeader_of h hl q), h.count]

theorem enqueueWaitPosition_spec {p : Pool} {Q : QueueRef → List Registration}
    {S : Finset Registration} (h : WaitShape p.waits Q S) (hl : WaitLive p S) {q : QueueRef}
    (e : ℕ) : ∀ (fuel : ℕ) (m l : List Registration), Q q = l ++ m → m.length ≤ fuel →
      enqueueWaitPosition p q e fuel l.getLast? m.head?
        = some ((l ++ m.takeWhile fun b => ¬ p.prio.effectivePriority b.1 < e).getLast?,
            (m.dropWhile fun b => ¬ p.prio.effectivePriority b.1 < e).head?)
  | _, [], l, _, _ => by simp [enqueueWaitPosition]
  | 0, _ :: _, _, _, hf => by simp at hf
  | fuel + 1, a :: m, l, hQ, hf => by
    have ha : a ∈ Q q := by simp [hQ]
    obtain ⟨hnext, hprev⟩ := h.lists.at_split hQ
    have hQ' : Q q = (l ++ [a]) ++ m := by simpa using hQ
    have ih := enqueueWaitPosition_spec h hl e fuel m (l ++ [a]) hQ'
      (by simpa using Nat.le_of_succ_le_succ hf)
    simp only [List.head?_cons, enqueueWaitPosition, registrationThread_live hl (h.mem ha),
      (h.queued a q).2 ha, hprev, ne_eq, not_true, or_self, if_false]
    by_cases hlt : p.prio.effectivePriority a.1 < e
    · simp [hlt]
    · rw [if_neg hlt, hnext]
      simpa [takeWhile_cons, dropWhile_cons, not_lt.1 hlt] using ih

section Link

variable {w : WaitTable} {Q : QueueRef → List Registration} {S : Finset Registration}

theorem WaitTable.link_frame (w : WaitTable) (r : Registration) (q : QueueRef)
    (previous next : Option Registration) : w.Frame (w.link r q previous next) := by
  refine ⟨?_, ?_, ?_, fun j => ?_⟩
  all_goals rcases previous with _ | b <;> rcases next with _ | a
  all_goals try rfl
  all_goals
    rcases eq_or_ne j q with rfl | hj
    · simp [WaitTable.link, WaitTable.setQueue, WaitTable.setRow]
    · simp [WaitTable.link, WaitTable.setQueue, WaitTable.setRow, hj]

theorem WaitTable.unlink_frame (w : WaitTable) (r : Registration) (q : QueueRef)
    (before after : Option Registration) : w.Frame (w.unlink r q before after) := by
  refine ⟨?_, ?_, ?_, fun j => ?_⟩
  all_goals rcases before with _ | b <;> rcases after with _ | a
  all_goals try rfl
  all_goals
    rcases eq_or_ne j q with rfl | hj
    · simp [WaitTable.unlink, WaitTable.setQueue, WaitTable.setRow]
    · simp [WaitTable.unlink, WaitTable.setQueue, WaitTable.setRow, hj]

theorem WaitTable.link_row (w : WaitTable) (r : Registration) (q : QueueRef)
    (previous next : Option Registration) (hp : previous ≠ some r) (hn : next ≠ some r) :
    (w.link r q previous next).row r = ⟨some q, previous, next⟩ := by
  rcases previous with _ | b <;> rcases next with _ | a <;>
    simp_all [WaitTable.link, WaitTable.setQueue, WaitTable.setRow, Ne.symm]

variable {q : QueueRef} {r y : Registration}

section

variable (w)

section

variable (r)

theorem WaitTable.link_row_of_ne (q : QueueRef) (previous next : Option Registration) (hy : y ≠ r) :
    (w.link r q previous next).row y = ⟨(w.row y).queue,
      if next = some y then some r else (w.row y).previous,
      if previous = some y then some r else (w.row y).next⟩ := by
  rcases previous with _ | b <;> rcases next with _ | a <;>
    simp only [WaitTable.link, WaitTable.setQueue, WaitTable.setRow]
  · simp [hy]
  · rcases eq_or_ne y a with rfl | hya <;> simp [*, Ne.symm]
  · rcases eq_or_ne y b with rfl | hyb <;> simp [*, Ne.symm]
  · rcases eq_or_ne y a with rfl | hya <;> rcases eq_or_ne y b with rfl | hyb <;>
      simp [*, Ne.symm]

theorem WaitTable.link_queue (q : QueueRef) (previous next : Option Registration) :
    (w.link r q previous next).queue = update w.queue q
      { w.queue q with
        head := if previous = none then some r else (w.queue q).head
        tail := if next = none then some r else (w.queue q).tail
        count := (w.queue q).count + 1 } := by
  rcases previous with _ | b <;> rcases next with _ | a <;>
    simp [WaitTable.link, WaitTable.setQueue, WaitTable.setRow]

theorem WaitTable.unlink_queue (q : QueueRef) (before after : Option Registration) :
    (w.unlink r q before after).queue = update w.queue q
      { w.queue q with
        head := if before = none then after else (w.queue q).head
        tail := if after = none then before else (w.queue q).tail
        count := (w.queue q).count - 1 } := by
  rcases before with _ | b <;> rcases after with _ | a <;>
    simp [WaitTable.unlink, WaitTable.setQueue, WaitTable.setRow]

theorem WaitTable.unlink_row (q : QueueRef) (before after : Option Registration) :
    (w.unlink r q before after).row r = ⟨none, none, none⟩ := by
  rcases before with _ | b <;> rcases after with _ | a <;>
    simp [WaitTable.unlink, WaitTable.setQueue, WaitTable.setRow]

theorem WaitTable.unlink_row_of_ne (q : QueueRef)
    (before after : Option Registration) (hy : y ≠ r) :
    (w.unlink r q before after).row y = ⟨(w.row y).queue,
      if after = some y then before else (w.row y).previous,
      if before = some y then after else (w.row y).next⟩ := by
  rcases before with _ | b <;> rcases after with _ | a <;>
    simp only [WaitTable.unlink, WaitTable.setQueue, WaitTable.setRow]
  · simp [hy]
  · rcases eq_or_ne y a with rfl | hya <;> simp [*, Ne.symm]
  · rcases eq_or_ne y b with rfl | hyb <;> simp [*, Ne.symm]
  · rcases eq_or_ne y a with rfl | hya <;> rcases eq_or_ne y b with rfl | hyb <;>
      simp [*, Ne.symm]

end

end

theorem WaitShape.link (h : WaitShape w Q S) {l m : List Registration}
    (hQ : Q q = l ++ m) (hr : r ∉ S) :
    WaitShape (w.link r q l.getLast? m.head?) (update Q q (l ++ r :: m)) (insert r S) := by
  have hrQ : ∀ j, r ∉ Q j := fun j hj => hr (h.mem hj)
  have hrl : l.getLast? ≠ some r := fun he => hrQ q (by
    rw [hQ]; exact mem_append_left _ (mem_of_getLast? he))
  have hrm : m.head? ≠ some r := fun he => hrQ q (by
    rw [hQ]; exact mem_append_right _ (mem_of_head? he))
  have hrow := w.link_row r q _ _ hrl hrm
  have hrow' : ∀ y, y ≠ r → _ := fun y hy => w.link_row_of_ne r q l.getLast? m.head? hy
  have hqueue := w.link_queue r q l.getLast? m.head?
  have hmem : ∀ a j, a ∈ update Q q (l ++ r :: m) j ↔ (a = r ∧ j = q) ∨ a ∈ Q j := by
    intro a j
    rcases eq_or_ne j q with rfl | hj
    · simp [hQ, or_left_comm]
    · simp [hj]
  refine ⟨h.lists.insert hQ hrQ (by rw [hrow]) (by rw [hrow]) (fun y hy => by rw [hrow' y hy])
    (fun y hy => by rw [hrow' y hy]) ?_ fun j hj => by rw [hqueue, update_of_ne hj],
    fun j => ?_, fun a j => ?_, fun j => ?_, fun a => ?_, ?_, fun t => ?_⟩
  · rw [hqueue, update_self, h.lists.head, hQ]
    rcases l with _ | ⟨a, l⟩
    · simp
    · simp [List.getLast?_cons]
  · rw [hqueue]
    rcases eq_or_ne j q with rfl | hj
    · rw [update_self, update_self, h.tail, hQ]
      rcases m with _ | ⟨a, m⟩ <;> simp [List.getLast?_append, List.getLast?_cons]
    · rw [update_of_ne hj, update_of_ne hj, h.tail]
  · rw [hmem]
    rcases eq_or_ne a r with rfl | ha
    · simp [hrow, hrQ, eq_comm]
    · simp [hrow' a ha, ha, h.queued]
  · rw [hqueue]
    rcases eq_or_ne j q with rfl | hj
    · simp only [update_self, h.count, hQ, length_append, length_cons]
      omega
    · rw [update_of_ne hj, update_of_ne hj, h.count]
  · simp only [mem_insert, hmem, h.linked]
    exact ⟨fun ha => ha.elim (fun ha => ⟨q, .inl ⟨ha, rfl⟩⟩) fun ⟨j, hj⟩ => ⟨j, .inr hj⟩,
      fun ⟨j, hj⟩ => hj.imp And.left fun hj => ⟨j, hj⟩⟩
  · rw [card_insert_of_notMem hr, ← h.total]
    rcases l.getLast? with _ | b <;> rcases m.head? with _ | a <;> rfl
  · have : (w.link r q l.getLast? m.head?).waitRegistrationCount
        = update w.waitRegistrationCount r.1 (w.waitRegistrationCount r.1 + 1) := by
      rcases l.getLast? with _ | b <;> rcases m.head? with _ | a <;> rfl
    rw [this, filter_insert]
    rcases eq_or_ne t r.1 with rfl | ht
    · rw [update_self, if_pos rfl, h.each,
        card_insert_of_notMem fun hm => hr (mem_filter.1 hm).1]
    · rw [update_of_ne ht, if_neg (Ne.symm ht), h.each]

theorem WaitShape.unlink (h : WaitShape w Q S) {l m : List Registration} (hQ : Q q = l ++ r :: m) :
    WaitShape (w.unlink r q l.getLast? m.head?) (fun q => (Q q).filter (· ≠ r)) (S.erase r) := by
  have hrS : r ∈ S := h.mem (q := q) (by simp [hQ])
  have hrow := w.unlink_row r q l.getLast? m.head?
  have hrow' : ∀ y, y ≠ r → _ := fun y hy => w.unlink_row_of_ne r q l.getLast? m.head? hy
  have hqueue := w.unlink_queue r q l.getLast? m.head?
  have hcut := h.lists.update_cut hQ
  refine ⟨?_, fun j => ?_, fun a j => ?_, fun j => ?_, fun a => ?_, ?_, fun t => ?_⟩
  · rw [← hcut]
    refine h.lists.remove hQ (by rw [hrow]) (by rw [hrow]) (fun y hy => by rw [hrow' y hy])
      (fun y hy => by rw [hrow' y hy]) ?_ fun j hj => by rw [hqueue, update_of_ne hj]
    rw [hqueue, update_self, h.lists.head, hQ]
    rcases l with _ | ⟨a, l⟩
    · simp
    · simp [List.getLast?_cons]
  · rw [← congrFun hcut j, hqueue]
    rcases eq_or_ne j q with rfl | hj
    · rw [update_self, update_self, h.tail, hQ]
      rcases m with _ | ⟨a, m⟩ <;> simp [List.getLast?_append, List.getLast?_cons]
    · rw [update_of_ne hj, update_of_ne hj, h.tail]
  · rcases eq_or_ne a r with rfl | ha
    · simp [hrow]
    · simp [hrow' a ha, ha, h.queued]
  · rw [← congrFun hcut j, hqueue]
    rcases eq_or_ne j q with rfl | hj
    · simp only [update_self, h.count, hQ, length_append, length_cons]
      omega
    · rw [update_of_ne hj, update_of_ne hj, h.count]
  · simp only [mem_erase, h.linked, mem_filter, decide_eq_true_eq]
    exact ⟨fun ⟨ha, j, hj⟩ => ⟨j, hj, ha⟩, fun ⟨j, hj, ha⟩ => ⟨ha, j, hj⟩⟩
  · rw [card_erase_of_mem hrS, ← h.total]
    rcases l.getLast? with _ | b <;> rcases m.head? with _ | a <;> rfl
  · have : (w.unlink r q l.getLast? m.head?).waitRegistrationCount
        = update w.waitRegistrationCount r.1 (w.waitRegistrationCount r.1 - 1) := by
      rcases l.getLast? with _ | b <;> rcases m.head? with _ | a <;> rfl
    rw [this, filter_erase]
    rcases eq_or_ne t r.1 with rfl | ht
    · have hrF : r ∈ S.filter (·.1 = r.1) := mem_filter.2 ⟨hrS, rfl⟩
      rw [update_self, h.each, card_erase_of_mem hrF]
    · rw [update_of_ne ht, h.each, erase_eq_of_notMem]
      exact fun hm => ht (mem_filter.1 hm).2.symm

end Link

section Registration

variable {p : Pool} {Q : QueueRef → List Registration} {S : Finset Registration} {t : Slot} {m : ℕ}

theorem enqueueWaitRegistration_spec (h : WaitShape p.waits Q S) (hl : WaitLive p S)
    (hv : validThread p t) (hb : p.state t = .blocked) (hm : m < p.waits.waitMemberCount t)
    (hrow : p.waits.rowAllocated t = true) (hmax : m < kernelThreadWaitMemberMax)
    (hr : (t, m) ∉ S) {q : QueueRef} (hq : (Q q).length ≠ uint32Max) :
    ∃ w, enqueueWaitRegistration p t m q = (.ok, { p with waits := w }) ∧ p.waits.Frame w ∧
      WaitShape w (update Q q (serveAfter p.prio.effectivePriority (t, m) (Q q)))
        (insert (t, m) S) := by
  have hoff := h.lists.off (t, m) fun j hj => hr (h.mem hj)
  have heach := h.each_lt hl hmax hr
  have hguard : ¬ (¬ validThread p t ∨ ¬ validWaitQueueHeader p q ∨ p.state t ≠ .blocked
      ∨ p.waits.waitMemberCount t ≤ m ∨ (p.waits.queue q).count = uint32Max
      ∨ p.waits.rowAllocated t = false
      ∨ kernelThreadWaitMemberMax ≤ p.waits.waitRegistrationCount t) := by
    rw [h.count]
    simp only [hv, validWaitQueueHeader_of h hl q, hb, hrow, hq, not_true, ne_eq, false_or,
      not_or, not_le]
    exact ⟨hm, by simp, heach⟩
  have hpos := enqueueWaitPosition_spec h hl (p.prio.effectivePriority t) p.waits.registrationCount
    (Q q) [] rfl (by rw [h.total]; exact h.length_le q)
  rw [← h.lists.head] at hpos
  obtain ⟨lo, hlo⟩ : ∃ lo, lo = (Q q).takeWhile fun b =>
      ¬ p.prio.effectivePriority b.1 < p.prio.effectivePriority t := ⟨_, rfl⟩
  obtain ⟨hi, hhi⟩ : ∃ hi, hi = (Q q).dropWhile fun b =>
      ¬ p.prio.effectivePriority b.1 < p.prio.effectivePriority t := ⟨_, rfl⟩
  have hsplit : Q q = lo ++ hi := by rw [hlo, hhi, takeWhile_append_dropWhile]
  rw [List.getLast?_nil, nil_append, ← hlo, ← hhi] at hpos
  refine ⟨p.waits.link (t, m) q lo.getLast? hi.head?, ?_, p.waits.link_frame (t, m) q _ _, ?_⟩
  · unfold enqueueWaitRegistration
    rw [if_neg hguard, if_neg (by simp [h.queue_none hr, hoff.1, hoff.2]), hpos]
  · rw [serveAfter, orderedInsert_eq_take_drop, ← hlo, ← hhi]
    exact h.link hsplit hr

theorem removeWaitRegistration_spec (h : WaitShape p.waits Q S) (hl : WaitLive p S)
    {r : Registration} (hr : r ∈ S) :
    ∃ w, removeWaitRegistration p r = (.ok, { p with waits := w }) ∧ p.waits.Frame w ∧
      WaitShape w (fun q => (Q q).filter (· ≠ r)) (S.erase r) := by
  obtain ⟨q, hqr, hmem⟩ := h.exists_queue hr
  obtain ⟨l, m, hQ⟩ := append_of_mem hmem
  obtain ⟨hnext, hprev⟩ := h.lists.at_split hQ
  have hbefore : p.waits.linkedBefore r q l.getLast? = true := by
    rcases hlast : l.getLast? with _ | b
    · obtain rfl := List.getLast?_eq_none_iff.1 hlast
      simp [WaitTable.linkedBefore, h.lists.head, hQ]
    · have hb : b ∈ Q q := by rw [hQ]; exact mem_append_left _ (mem_of_getLast? hlast)
      simp [WaitTable.linkedBefore, (h.queued b q).2 hb, (h.lists.at_cut hQ).1 b hlast]
  have hafter : p.waits.linkedAfter r q m.head? = true := by
    rcases hhead : m.head? with _ | a
    · obtain rfl := List.head?_eq_none_iff.1 hhead
      simp [WaitTable.linkedAfter, h.tail, hQ]
    · have ha : a ∈ Q q := by
        rw [hQ]
        exact mem_append_right _ (mem_cons_of_mem _ (mem_of_head? hhead))
      have hQ' : Q q = (l ++ [r]) ++ m := by simpa using hQ
      have hpa : (p.waits.row a).previous = some r := by
        simpa using (h.lists.at_cut hQ').2 a hhead
      simp [WaitTable.linkedAfter, (h.queued a q).2 ha, hpa]
  have hcard : S.card ≠ 0 := card_ne_zero_of_mem hr
  have hlen : (Q q).length ≠ 0 := by simp [hQ]
  refine ⟨_, ?_, p.waits.unlink_frame r q l.getLast? m.head?, h.unlink hQ⟩
  unfold removeWaitRegistration
  rw [registrationThread_live hl hr, hqr]
  simp only [hnext, hprev, hbefore, hafter, h.count, h.total, hcard, hlen, h.each_pos hr,
    validWaitQueueHeader_of h hl q, not_true, or_self, if_false, reduceCtorEq]

end Registration

end Astra
