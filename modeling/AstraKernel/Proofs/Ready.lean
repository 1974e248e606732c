import AstraKernel.Lists
import AstraKernel.Thread.Ready
import Mathlib.Algebra.BigOperators.Group.Finset.Basic

/-!
# What the ready lists hold

`ReadyShape rq R` says that the links, the tails, the bitmap and the count of `rq` hold the lists
`R`. Enqueuing puts a thread at the end of the list of its effective priority, and removing takes
it out of that list.
-/

namespace Astra

open Finset Function List

structure ReadyShape (rq : ReadyQueues) (R : ℕ → List Slot) : Prop where
  lists : LinkedLists rq.readyNext rq.readyPrevious rq.readyHead R
  tail : ∀ k, rq.readyTail k = (R k).getLast?
  bitmap : ∀ k, rq.readyBitmap.getLsbD k = true ↔ R k ≠ []
  count : rq.readyCount = ∑ k ∈ Finset.range kernelThreadPriorityLevels, (R k).length

variable {l m : List Slot} {k : ℕ}

theorem ReadyShape.nil_of_le {rq : ReadyQueues} {R : ℕ → List Slot} (h : ReadyShape rq R)
    (hk : kernelThreadPriorityLevels ≤ k) : R k = [] := by
  by_contra hne
  have := (h.bitmap k).2 hne
  rw [BitVec.getLsbD_of_ge _ _ hk] at this
  exact absurd this (by simp)

theorem sum_length_update {α : Type*} (R : ℕ → List α) {n : ℕ} (hk : k < n) (l : List α) :
    (∑ j ∈ Finset.range n, (update R k l j).length) + (R k).length
      = (∑ j ∈ Finset.range n, (R j).length) + l.length := by
  have hmem := Finset.mem_range.2 hk
  rw [← add_sum_erase _ _ hmem, ← add_sum_erase _ (fun j => (R j).length) hmem,
    update_self]
  have hrest : ∑ j ∈ (Finset.range n).erase k, (update R k l j).length
      = ∑ j ∈ (Finset.range n).erase k, (R j).length :=
    sum_congr rfl fun j hj => by rw [update_of_ne (ne_of_mem_erase hj)]
  omega

theorem getLsbD_or_bit (b : BitVec 32) (hk : k < 32) (j : ℕ) :
    (b ||| (1#32 <<< k)).getLsbD j = true ↔ j = k ∨ b.getLsbD j = true := by
  simp only [BitVec.getLsbD_or, BitVec.getLsbD_shiftLeft, BitVec.getLsbD_one, Bool.or_eq_true,
    Bool.and_eq_true, decide_eq_true_eq, Bool.not_eq_true', decide_eq_false_iff_not]
  constructor
  · rintro (h | h)
    · exact .inr h
    · exact .inl (by omega)
  · rintro (rfl | h)
    · exact .inr (by omega)
    · exact .inl h

theorem getLsbD_and_not_bit (b : BitVec 32) (k j : ℕ) :
    (b &&& ~~~(1#32 <<< k)).getLsbD j = true ↔ j ≠ k ∧ b.getLsbD j = true := by
  rcases Nat.lt_or_ge j 32 with hj | hj
  · simp only [BitVec.getLsbD_and, BitVec.getLsbD_not, BitVec.getLsbD_shiftLeft, hj,
      BitVec.getLsbD_one, decide_true, Bool.true_and, Bool.and_eq_true, Bool.not_eq_true',
      Bool.and_eq_false_iff, Bool.not_eq_false', decide_eq_true_eq, decide_eq_false_iff_not]
    constructor
    · rintro ⟨h, h'⟩
      exact ⟨by omega, h⟩
    · rintro ⟨h, h'⟩
      exact ⟨h', by omega⟩
  · simp [BitVec.getLsbD_of_ge _ _ hj]

namespace ReadyShape

variable {rq : ReadyQueues} {R : ℕ → List Slot}

variable {k : ℕ}

theorem append (h : ReadyShape rq R) (hk : k < kernelThreadPriorityLevels) {t : Slot}
    {nxt prv : Slot → Option Slot} {hd : ℕ → Option Slot}
    (hl : LinkedLists nxt prv hd (update R k (R k ++ [t]))) :
    ReadyShape
      ({ rq with readyNext := nxt, readyPrevious := prv, readyHead := hd }.setTail k t)
      (update R k (R k ++ [t])) := by
  refine ⟨hl, fun j => ?_, fun j => ?_, ?_⟩
  · rcases eq_or_ne j k with rfl | hj
    · simp [ReadyQueues.setTail]
    · simp [ReadyQueues.setTail, hj, h.tail]
  · simp only [ReadyQueues.setTail]
    rw [getLsbD_or_bit _ hk, h.bitmap]
    rcases eq_or_ne j k with rfl | hj
    · simp
    · simp [hj]
  · have := sum_length_update R hk (R k ++ [t])
    rw [length_append, length_singleton] at this
    simp only [ReadyQueues.setTail, h.count]
    omega

theorem cut (h : ReadyShape rq R) {t : Slot} {l m : List Slot} (hL : R k = l ++ t :: m)
    {rq' : ReadyQueues}
    (hl : LinkedLists rq'.readyNext rq'.readyPrevious rq'.readyHead (update R k (l ++ m)))
    (ht : rq'.readyTail = update rq.readyTail k (l ++ m).getLast?)
    (hb : rq'.readyBitmap
      = if l ++ m = [] then rq.readyBitmap &&& ~~~(1#32 <<< k) else rq.readyBitmap)
    (hc : rq'.readyCount = rq.readyCount - 1) : ReadyShape rq' (update R k (l ++ m)) := by
  have hk : k < kernelThreadPriorityLevels := by
    by_contra hk
    simp [h.nil_of_le (not_lt.1 hk)] at hL
  refine ⟨hl, fun j => ?_, fun j => ?_, ?_⟩
  · rw [ht]
    rcases eq_or_ne j k with rfl | hj
    · simp
    · simp [hj, h.tail]
  · rw [hb]
    rcases eq_or_ne j k with rfl | hj
    · rw [update_self]
      split_ifs with he
      · rw [getLsbD_and_not_bit]
        simp [he]
      · simp only [ne_eq, he, not_false_iff, iff_true]
        exact (h.bitmap j).2 (by simp [hL])
    · rw [update_of_ne hj, ← h.bitmap]
      split_ifs
      · rw [getLsbD_and_not_bit]
        simp [hj]
      · rfl
  · have := sum_length_update R hk (l ++ m)
    rw [hL] at this
    simp only [length_append, length_cons] at this
    rw [hc, h.count]
    omega

end ReadyShape

variable {p : Pool} {R : ℕ → List Slot} {t : Slot}

section

variable (h : ReadyShape p.ready R)
include h

theorem enqueueReady_spec (hv : validThread p t)
    (hs : p.state t = .ready) (hu : p.suspended t = false)
    (hk : p.prio.effectivePriority t < kernelThreadPriorityLevels) (ht : ∀ k, t ∉ R k)
    (hR : ∀ k, ∀ s ∈ R k, validThread p s ∧ p.state s = .ready) :
    ∃ rq, enqueueReady p t = (.ok, { p with ready := rq }) ∧
      ReadyShape rq (update R (p.prio.effectivePriority t)
        (R (p.prio.effectivePriority t) ++ [t])) := by
  set k := p.prio.effectivePriority t with hkd
  obtain ⟨hnx, hpx⟩ := h.lists.off t ht
  have hguard : ¬ (¬ validThread p t ∨ p.state t ≠ .ready ∨ p.suspended t = true
      ∨ kernelThreadPriorityLevels ≤ k ∨ p.ready.readyPrevious t ≠ none
      ∨ p.ready.readyNext t ≠ none) := by
    simp [hv, hs, hu, hnx, hpx, hk]
  have htail := h.tail k
  have hcut : R k = R k ++ [] := (append_nil _).symm
  rcases hlast : (R k).getLast? with _ | tail
  · have hnil : R k = [] := List.getLast?_eq_none_iff.1 hlast
    have hhead : p.ready.readyHead k = none := by rw [h.lists.head, hnil]; rfl
    refine ⟨{ p.ready with readyHead := update p.ready.readyHead k (some t) }.setTail k t, ?_, ?_⟩
    · simp only [enqueueReady, ← hkd, if_neg hguard, htail, hlast, hhead, ne_eq, not_true,
        if_false]
    · refine h.append hk (h.lists.insert hcut ht (by simpa using hnx) ?_ (fun y hy => ?_)
        (fun y hy => ?_) ?_ fun j hj => ?_)
      · rw [hpx, hlast]
      · simp [hlast]
      · simp
      · simp [hnil]
      · simp [hj]
  · have hmem : tail ∈ R k := mem_of_getLast? hlast
    obtain ⟨hvt, hst⟩ := hR k tail hmem
    have htn : p.ready.readyNext tail = none := by
      simpa using (h.lists.at_cut hcut).1 tail hlast
    have hne : t ≠ tail := fun he => ht k (he ▸ hmem)
    refine ⟨{ p.ready with
      readyNext := update p.ready.readyNext tail (some t)
      readyPrevious := update p.ready.readyPrevious t (some tail) }.setTail k t, ?_, ?_⟩
    · simp only [enqueueReady, ← hkd, if_neg hguard, htail, hlast, hvt, hst, htn, ne_eq, not_true,
        or_self, if_false]
    · refine h.append hk (h.lists.insert hcut ht ?_ ?_ (fun y hy => ?_) (fun y hy => ?_) ?_
        fun j hj => rfl)
      · simp [hne, hnx]
      · simp [hlast]
      · rcases eq_or_ne y tail with rfl | hyt
        · simp [hlast]
        · simp [hlast, hyt, Ne.symm hyt]
      · simp [hy]
      · rw [h.lists.head, List.head?_append_of_ne_nil _ (ne_nil_of_mem hmem)]

theorem removeReadyPrevious_spec
    (hL : R k = l ++ t :: m) (hR : ∀ s ∈ R k, validThread p s) (next : Option Slot) :
    ∃ hd nxt, removeReadyPrevious p t k l.getLast? next
        = (.ok, { p with ready := { p.ready with readyHead := hd, readyNext := nxt } })
      ∧ (∀ y, nxt y = if l.getLast? = some y then next else p.ready.readyNext y)
      ∧ ∀ j, hd j = if j = k ∧ l = [] then next else p.ready.readyHead j := by
  rcases hlast : l.getLast? with _ | s
  · obtain rfl := List.getLast?_eq_none_iff.1 hlast
    have hhead : p.ready.readyHead k = some t := by rw [h.lists.head, hL]; rfl
    refine ⟨update p.ready.readyHead k next, p.ready.readyNext, ?_, by simp, fun j => ?_⟩
    · simp [removeReadyPrevious, hhead]
    · rcases eq_or_ne j k with rfl | hj
      · simp
      · simp [hj]
  · have hmem : s ∈ R k := by rw [hL]; exact mem_append_left _ (mem_of_getLast? hlast)
    have hn : p.ready.readyNext s = some t := (h.lists.at_cut hL).1 s hlast
    have hne : l ≠ [] := by rintro rfl; simp at hlast
    refine ⟨p.ready.readyHead, update p.ready.readyNext s next, ?_, fun y => ?_, by simp [hne]⟩
    · simp [removeReadyPrevious, hn, hR s hmem]
    · rcases eq_or_ne y s with rfl | hy
      · simp
      · simp [hy, Ne.symm hy]

theorem removeReadyNext_spec
    (hL : R k = l ++ t :: m) (hR : ∀ s ∈ R k, validThread p s) (hd : ℕ → Option Slot)
    (nxt : Slot → Option Slot) (previous : Option Slot) :
    ∃ tl prv, removeReadyNext
          { p with ready := { p.ready with readyHead := hd, readyNext := nxt } } t k previous m.head?
        = (.ok, { p with ready := { p.ready with
            readyHead := hd, readyNext := nxt, readyTail := tl, readyPrevious := prv } })
      ∧ (∀ y, prv y = if m.head? = some y then previous else p.ready.readyPrevious y)
      ∧ ∀ j, tl j = if j = k ∧ m = [] then previous else p.ready.readyTail j := by
  rcases hhead : m.head? with _ | s
  · obtain rfl := List.head?_eq_none_iff.1 hhead
    have htail : p.ready.readyTail k = some t := by rw [h.tail, hL]; simp
    refine ⟨update p.ready.readyTail k previous, p.ready.readyPrevious, ?_, by simp, fun j => ?_⟩
    · simp [removeReadyNext, htail]
    · rcases eq_or_ne j k with rfl | hj
      · simp
      · simp [hj]
  · have hmem : s ∈ R k := by
      rw [hL]
      exact mem_append_right _ (mem_cons_of_mem _ (mem_of_head? hhead))
    have hL' : R k = (l ++ [t]) ++ m := by simpa using hL
    have hp : p.ready.readyPrevious s = some t := by
      simpa using (h.lists.at_cut hL').2 s hhead
    have hne : m ≠ [] := by rintro rfl; simp at hhead
    refine ⟨p.ready.readyTail, update p.ready.readyPrevious s previous, ?_, fun y => ?_,
      by simp [hne]⟩
    · have hv : validThread { p with ready := { p.ready with readyHead := hd, readyNext := nxt } } s :=
        hR s hmem
      simp [removeReadyNext, hp, hv]
    · rcases eq_or_ne y s with rfl | hy
      · simp
      · simp [hy, Ne.symm hy]

theorem removeReady_spec (hv : validThread p t)
    (hs : p.state t = .ready) (ht : t ∈ R (p.prio.effectivePriority t))
    (hR : ∀ s ∈ R (p.prio.effectivePriority t), validThread p s) :
    ∃ rq, removeReady p t = (.ok, { p with ready := rq }) ∧
      ReadyShape rq fun k => (R k).filter (· ≠ t) := by
  obtain ⟨l, m, hL⟩ := append_of_mem ht
  rw [← h.lists.update_cut hL]
  set k := p.prio.effectivePriority t with hkd
  have hk : k < kernelThreadPriorityLevels := by
    by_contra hk
    simp [h.nil_of_le (not_lt.1 hk)] at hL
  obtain ⟨htl, htm⟩ := h.lists.notMem_split hL
  obtain ⟨hnt, hpt⟩ := h.lists.at_split hL
  have hguard : ¬ (¬ validThread p t ∨ p.state t ≠ .ready ∨ kernelThreadPriorityLevels ≤ k) := by
    simp [hv, hs, hk]
  obtain ⟨hd, nxt, h1, hnxt, hhd⟩ := removeReadyPrevious_spec h hL hR m.head?
  obtain ⟨tl, prv, h2, hprv, htlk⟩ :=
    removeReadyNext_spec h hL hR hd nxt l.getLast?
  have hdk : hd k = (l ++ m).head? := by
    rw [hhd, h.lists.head, hL]
    rcases l with _ | ⟨a, l⟩ <;> simp
  have htk : tl k = (l ++ m).getLast? := by
    rw [htlk, h.tail, hL]
    rcases m with _ | ⟨a, m⟩ <;> simp [List.getLast?_append, List.getLast?_cons]
  have htl' : tl = update p.ready.readyTail k (l ++ m).getLast? := by
    funext j
    rcases eq_or_ne j k with rfl | hj
    · rw [update_self, htk]
    · rw [update_of_ne hj, htlk, if_neg fun hj' => hj hj'.1]
  have hcount : p.ready.readyCount ≠ 0 := by
    have hle := sum_length_update R hk []
    rw [← h.count, hL] at hle
    simp only [length_append, length_cons, length_nil] at hle
    omega
  have hlists : LinkedLists (update nxt t none) (update prv t none) hd (update R k (l ++ m)) := by
    refine h.lists.remove hL (update_self ..) (update_self ..) (fun y hy => ?_) (fun y hy => ?_)
      hdk fun j hj => ?_
    · rw [update_of_ne hy, hnxt]
    · rw [update_of_ne hy, hprv]
    · rw [hhd, if_neg fun hj' => hj hj'.1]
  refine ⟨{
    readyHead := hd
    readyTail := tl
    readyBitmap := if l ++ m = [] then p.ready.readyBitmap &&& ~~~(1#32 <<< k)
      else p.ready.readyBitmap
    readyCount := p.ready.readyCount - 1
    readyPrevious := update prv t none
    readyNext := update nxt t none }, ?_, h.cut hL hlists htl' rfl rfl⟩
  unfold removeReady
  rw [← hkd, if_neg hguard]
  simp only [hnt, hpt]
  rw [h1, Result.andThen_ok, h2, Result.andThen_ok, removeReadyFinish]
  by_cases he : l ++ m = [] <;>
    simp only [hcount, if_false, hdk, htk, he, List.head?_eq_none_iff, List.getLast?_eq_none_iff,
      ne_eq, not_true, if_true]

end

end Astra
