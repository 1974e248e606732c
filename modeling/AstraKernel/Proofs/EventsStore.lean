import AstraKernel.ByKey
import AstraKernel.Events.Read

/-!
# The records of the store in their order

A ring holds its records oldest first, and an append puts one behind them (`entries_push`). Where
the sequences of the rings ascend, the search follows them (`nextRecord_spec`).
-/

namespace Astra

open Function List

variable {ring : AstraEventRing} {store : AstraEventStore} {index index' : EventsIndex}
  {event : AstraEventDrained} {node : AstraEventsNode} {record : AstraEventStored}

/-! ## One ring -/

structure EventRingSound (ring : AstraEventRing) : Prop where
  capacity_pos : 0 < ring.capacity
  count_le : ring.count ≤ ring.capacity
  oldest_lt : ring.oldest < ring.capacity

/-- The record that is made of an event. -/
def storedEvent (event : AstraEventDrained) : AstraEventStored :=
  ⟨event, 1, event.timestampHigh, event.timestampLow⟩

@[simp] theorem length_entries (ring : AstraEventRing) : ring.entries.length = ring.count :=
  window_length ..

theorem storeAt_eq (store : AstraEventStore) (tier : EventTier) (place : ℕ) :
    astraEventStoreAt store tier place = (store.tiers tier).entries[place]? := by
  unfold astraEventStoreAt AstraEventRing.entries window
  by_cases h : place < (store.tiers tier).count
  · rw [if_neg (by omega), List.getElem?_map, List.getElem?_range h]
    rfl
  · rw [if_pos (by omega), List.getElem?_map, List.getElem?_eq_none (by simpa using h)]
    rfl

theorem entries_push (h : EventRingSound ring) (event : AstraEventDrained) :
    EventRingSound (ring.push event).1 ∧
      (ring.push event).1.entries =
        (if ring.count = ring.capacity then ring.entries.tail else ring.entries) ++
          [storedEvent event] ∧
      (ring.push event).2 =
        if ring.count = ring.capacity then ring.entries.head? else none := by
  obtain ⟨hpos, hle, ho⟩ := h
  have hkept : ∀ start len, ring.oldest ≤ start → start + len ≤ ring.oldest + ring.count →
      ring.oldest + ring.count < start + ring.capacity →
      window (update ring.records ((ring.oldest + ring.count) % ring.capacity)
        (storedEvent event)) ring.capacity start len =
      window ring.records ring.capacity start len := by
    intro start len hstart hstop hlap
    refine window_congr fun i hi => update_of_ne ?_ _ _
    exact mod_ne_of_lt (by omega) (by omega)
  have hnew : window (update ring.records ((ring.oldest + ring.count) % ring.capacity)
      (storedEvent event)) ring.capacity (ring.oldest + ring.count) 1 = [storedEvent event] := by
    simp [window]
  unfold AstraEventRing.push
  rw [if_neg hpos.ne']
  by_cases hfull : ring.count = ring.capacity
  · simp only [if_pos hfull]
    obtain ⟨n, hn⟩ : ∃ n, ring.count = 1 + n := ⟨ring.count - 1, by omega⟩
    have hold : ring.entries = ring.records ring.oldest ::
        window ring.records ring.capacity (ring.oldest + 1) n := by
      unfold AstraEventRing.entries
      rw [hn, window_add]
      simp [window, Nat.mod_eq_of_lt ho]
    have hlast : ∀ records : ℕ → AstraEventStored,
        window records ring.capacity (ring.oldest + 1) ring.count =
          window records ring.capacity (ring.oldest + 1) n ++
            window records ring.capacity (ring.oldest + ring.count) 1 := by
      intro records
      rw [hn, Nat.add_comm 1 n, window_add, Nat.add_right_comm, Nat.add_assoc]
    refine ⟨⟨hpos, hle, Nat.mod_lt _ hpos⟩, ?_, ?_⟩
    · rw [hold, tail_cons]
      unfold AstraEventRing.entries
      rw [window_start (Nat.mod_mod _ _), ← storedEvent, hlast,
        hkept _ _ (by omega) (by omega) (by omega), hnew]
    · rw [hold]
      rfl
  · simp only [if_neg hfull]
    refine ⟨⟨hpos, Nat.lt_of_le_of_ne hle hfull, ho⟩, ?_, trivial⟩
    unfold AstraEventRing.entries
    rw [window_add, ← storedEvent, hkept _ _ le_rfl le_rfl (by omega), hnew]

/-! ## The three rings -/

def sequenceOf (record : AstraEventStored) : ℕ := record.event.sequence.toNat

namespace AstraEventStore

local instance : NeZero 3 := ⟨three_ne_zero⟩

/-- The records of a merged ring. -/
def ofTier (store : AstraEventStore) (tier : Fin 3) : List AstraEventStored :=
  (store.tiers (mergedTier tier)).entries

def seenIn (store : AstraEventStore) (index : EventsIndex) : List AstraEventStored :=
  [0, 1, 2].flatMap fun tier => (store.ofTier tier).take (index tier)

def unseenIn (store : AstraEventStore) (index : EventsIndex) : List AstraEventStored :=
  [0, 1, 2].flatMap fun tier => (store.ofTier tier).drop (index tier)

def merged (store : AstraEventStore) : List AstraEventStored := [0, 1, 2].flatMap store.ofTier

end AstraEventStore

structure InSequence (store : AstraEventStore) : Prop where
  tiers : ∀ tier, AscendingBy sequenceOf (store.ofTier tier)
  distinct : DistinctBy sequenceOf store.merged

theorem seen_unseen (store : AstraEventStore) (index : EventsIndex) :
    (store.seenIn index ++ store.unseenIn index).Perm store.merged := by
  refine (flatMap_append_perm _ _ _).trans (List.Perm.of_eq ?_)
  congr 1
  funext tier
  exact take_append_drop _ _

theorem InSequence.unseen (h : InSequence store) (index : EventsIndex) :
    DistinctBy sequenceOf (store.unseenIn index) :=
  (h.distinct.perm (seen_unseen store index).symm).sublist (sublist_append_right _ _)

theorem InSequence.seen (h : InSequence store) (index : EventsIndex) :
    DistinctBy sequenceOf (store.seenIn index) :=
  (h.distinct.perm (seen_unseen store index).symm).sublist (sublist_append_left _ _)

theorem mem_mergedTiers (tier : Fin 3) : tier ∈ [(0 : Fin 3), 1, 2] := by
  revert tier
  decide

theorem index_next {tier : Fin 3} (h : (store.ofTier tier)[index tier]? = some record) :
    (store.unseenIn index).Perm
        (record :: store.unseenIn (update index tier (index tier + 1))) ∧
      (store.seenIn (update index tier (index tier + 1))).Perm
        (record :: store.seenIn index) := by
  have hnodup : [(0 : Fin 3), 1, 2].Nodup := by decide
  constructor
  · refine flatMap_cons_perm (List.Perm.of_eq ?_) (fun other hne => ?_) hnodup (mem_mergedTiers tier)
    · obtain ⟨hlt, hat⟩ := List.getElem?_eq_some_iff.1 h
      rw [update_self, ← hat]
      exact drop_eq_getElem_cons hlt
    · rw [update_of_ne hne]
  · refine flatMap_cons_perm ?_ (fun other hne => ?_) hnodup (mem_mergedTiers tier)
    · rw [update_self, take_add_one, h]
      exact perm_append_comm
    · rw [update_of_ne hne]

/-! ## The search -/

theorem mergedBest_step (store : AstraEventStore) (index : EventsIndex)
    (best : Option (AstraEventStored × Fin 3)) (tier : Fin 3) :
    (mergedBest store index best tier = none →
      best = none ∧ (store.ofTier tier)[index tier]? = none) ∧
    ∀ found, mergedBest store index best tier = some found →
      (best = some found ∨ (store.ofTier found.2)[index found.2]? = some found.1) ∧
        (∀ other, best = some other → sequenceOf found.1 ≤ sequenceOf other.1) ∧
        ∀ record, (store.ofTier tier)[index tier]? = some record →
          sequenceOf found.1 ≤ sequenceOf record := by
  have hat : astraEventStoreAt store (mergedTier tier) (index tier) =
      (store.ofTier tier)[index tier]? := storeAt_eq ..
  unfold mergedBest
  rw [hat]
  cases hnext : (store.ofTier tier)[index tier]? with
  | none =>
    refine ⟨fun h => ⟨h, rfl⟩, fun found h => ⟨.inl h, fun other ho => ?_, nofun⟩⟩
    rw [← Option.some.inj (h.symm.trans ho)]
  | some record =>
    dsimp only
    split_ifs with hless
    · refine ⟨nofun, fun found h => ?_⟩
      cases h
      refine ⟨.inr hnext, fun other ho => ?_, fun record' hr => ?_⟩
      · rw [ho, Option.all_some, decide_eq_true_eq] at hless
        exact hless.le
      · rw [← Option.some.inj hr]
    · cases best with
      | none => simp at hless
      | some other =>
        refine ⟨nofun, fun found h => ?_⟩
        cases h
        refine ⟨.inl rfl, fun other' ho => ?_, fun record' hr => ?_⟩
        · rw [← Option.some.inj ho]
        · rw [← Option.some.inj hr]
          rw [Option.all_some, decide_eq_true_eq, BitVec.not_lt] at hless
          exact hless

theorem mergedBest_spec (store : AstraEventStore) (index : EventsIndex) : ∀ (tiers : List (Fin 3))
    (best : Option (AstraEventStored × Fin 3)),
    (tiers.foldl (mergedBest store index) best = none →
      best = none ∧ ∀ tier ∈ tiers, (store.ofTier tier)[index tier]? = none) ∧
    ∀ found, tiers.foldl (mergedBest store index) best = some found →
      (best = some found ∨ (store.ofTier found.2)[index found.2]? = some found.1) ∧
        (∀ other, best = some other → sequenceOf found.1 ≤ sequenceOf other.1) ∧
        ∀ tier ∈ tiers, ∀ record, (store.ofTier tier)[index tier]? = some record →
          sequenceOf found.1 ≤ sequenceOf record
  | [], best => by
    refine ⟨fun h => ⟨h, nofun⟩, fun found h => ⟨.inl h, fun other ho => ?_, nofun⟩⟩
    rw [← Option.some.inj (h.symm.trans ho)]
  | tier :: tiers, best => by
    obtain ⟨hnone, hsome⟩ := mergedBest_spec store index tiers (mergedBest store index best tier)
    obtain ⟨hstepNone, hstepSome⟩ := mergedBest_step store index best tier
    rw [foldl_cons]
    refine ⟨fun h => ?_, fun found h => ?_⟩
    · obtain ⟨hstep, hrest⟩ := hnone h
      obtain ⟨hbest, hat⟩ := hstepNone hstep
      exact ⟨hbest, forall_mem_cons.2 ⟨hat, hrest⟩⟩
    · obtain ⟨hfound, hle, hrest⟩ := hsome found h
      -- Nothing before the ring, and nothing of it, is below what the step has left.
      have hbelow : (∀ other, best = some other → sequenceOf found.1 ≤ sequenceOf other.1) ∧
          ∀ record, (store.ofTier tier)[index tier]? = some record →
            sequenceOf found.1 ≤ sequenceOf record := by
        cases hmiddle : mergedBest store index best tier with
        | none =>
          obtain ⟨hbest, hat⟩ := hstepNone hmiddle
          exact ⟨by simp [hbest], by simp [hat]⟩
        | some middle =>
          obtain ⟨-, hbest, hat⟩ := hstepSome middle hmiddle
          have hlt := hle middle hmiddle
          exact ⟨fun other ho => hlt.trans (hbest other ho), fun record hr => hlt.trans (hat record hr)⟩
      refine ⟨?_, hbelow.1, forall_mem_cons.2 ⟨hbelow.2, hrest⟩⟩
      rcases hfound with hfound | hfound
      · exact (hstepSome found hfound).1
      · exact .inr hfound

theorem mergedNext_spec (h : InSequence store) (index : EventsIndex) :
    (mergedNext store index = none → store.unseenIn index = []) ∧
    ∀ record index', mergedNext store index = some (record, index') →
      (store.unseenIn index).Perm (record :: store.unseenIn index') ∧
        (store.seenIn index').Perm (record :: store.seenIn index) ∧
        (∀ other ∈ store.unseenIn index', sequenceOf record < sequenceOf other) ∧
        ((∀ tier, index tier ≤ (store.ofTier tier).length) →
          ∀ tier, index' tier ≤ (store.ofTier tier).length) := by
  obtain ⟨hnone, hsome⟩ := mergedBest_spec store index [0, 1, 2] none
  refine ⟨fun hn => ?_, fun record index' hr => ?_⟩
  · have hend := (hnone (Option.map_eq_none_iff.1 hn)).2
    refine flatMap_eq_nil_iff.2 fun tier htier => ?_
    exact drop_eq_nil_iff.2 (List.getElem?_eq_none_iff.1 (hend tier htier))
  · obtain ⟨found, hfound, heq⟩ := Option.map_eq_some_iff.1 hr
    cases heq
    obtain ⟨hat, -, hleast⟩ := hsome found hfound
    obtain ⟨hunseen, hseen⟩ := index_next (hat.resolve_left nofun)
    refine ⟨hunseen, hseen, fun other ho => lt_of_le_of_ne ?_ ?_, fun hinside tier => ?_⟩
    · -- It is behind the next record of its ring.
      obtain ⟨tier, htier, hmem⟩ := mem_flatMap.1 (hunseen.mem_iff.2 (mem_cons_of_mem _ ho))
      obtain ⟨i, hi, hother⟩ := mem_iff_getElem.1 hmem
      rw [getElem_drop] at hother
      rw [length_drop] at hi
      have hlt : index tier < (store.ofTier tier).length := by omega
      refine (hleast tier htier _ (List.getElem?_eq_getElem hlt)).trans ?_
      rw [← hother]
      rcases Nat.eq_zero_or_pos i with rfl | hpos
      · exact le_rfl
      · exact (pairwise_iff_getElem.1 (h.tiers tier) _ _ hlt (by omega) (by omega)).le
    · exact (pairwise_cons.1 ((h.unseen index).perm hunseen)).1 other ho
    · by_cases htier : tier = found.2
      · subst tier
        rw [update_self]
        exact (List.getElem?_eq_some_iff.1 (hat.resolve_left nofun)).1
      · rw [update_of_ne htier]
        exact hinside tier

/-! ## The records of a node -/

namespace AstraEventsNode

local instance : NeZero 3 := ⟨three_ne_zero⟩

variable (node : AstraEventsNode)

/-- The store holds what the node reads in the order of the sequences; nothing is asked of the boot
ring. -/
def Ordered (store : AstraEventStore) : Prop := ¬node.BootRing → InSequence store

/-- The records that the node reads, the oldest first. -/
def records (store : AstraEventStore) : List AstraEventStored :=
  if node.BootRing then (store.tiers .boot).entries else byKey sequenceOf store.merged

def recordsBefore (store : AstraEventStore) (index : EventsIndex) : List AstraEventStored :=
  if node.BootRing then (store.tiers .boot).entries.take (index 0)
  else byKey sequenceOf (store.seenIn index)

def recordsFrom (store : AstraEventStore) (index : EventsIndex) : List AstraEventStored :=
  if node.BootRing then (store.tiers .boot).entries.drop (index 0)
  else byKey sequenceOf (store.unseenIn index)

def Cut (store : AstraEventStore) (index : EventsIndex) : Prop :=
  node.records store = node.recordsBefore store index ++ node.recordsFrom store index

def Inside (store : AstraEventStore) (index : EventsIndex) : Prop :=
  if node.BootRing then index 0 ≤ (store.tiers .boot).entries.length
  else ∀ tier, index tier ≤ (store.ofTier tier).length

end AstraEventsNode

theorem records_ascending (h : InSequence store) (hboot : ¬node.BootRing) :
    AscendingBy sequenceOf (node.records store) := by
  unfold AstraEventsNode.records
  rw [if_neg hboot]
  exact byKey_ascending h.distinct

theorem cut_iff (h : InSequence store) (hboot : ¬node.BootRing) : node.Cut store index ↔
    ∀ a ∈ store.seenIn index, ∀ b ∈ store.unseenIn index, sequenceOf a < sequenceOf b := by
  have hperm := seen_unseen store index
  unfold AstraEventsNode.Cut
  constructor
  · intro hcut a ha b hb
    have hascending := records_ascending h hboot
    rw [hcut] at hascending
    unfold AstraEventsNode.recordsBefore AstraEventsNode.recordsFrom at hascending
    rw [if_neg hboot, if_neg hboot] at hascending
    exact (pairwise_append.1 hascending).2.2 a ((byKey_perm _ _).mem_iff.2 ha) b
      ((byKey_perm _ _).mem_iff.2 hb)
  · intro hlt
    unfold AstraEventsNode.records AstraEventsNode.recordsBefore AstraEventsNode.recordsFrom
    rw [if_neg hboot, if_neg hboot, if_neg hboot, ← byKey_append (h.seen index) (h.unseen index) hlt]
    exact byKey_congr (h.distinct.perm hperm.symm) hperm

theorem cut_zero (h : node.Ordered store) : node.Cut store 0 ∧ node.recordsBefore store 0 = [] := by
  have hbefore : node.recordsBefore store 0 = [] := by
    unfold AstraEventsNode.recordsBefore
    split_ifs
    · rfl
    · rfl
  refine ⟨?_, hbefore⟩
  by_cases hboot : node.BootRing
  · unfold AstraEventsNode.Cut
    rw [hbefore]
    unfold AstraEventsNode.records AstraEventsNode.recordsFrom
    rw [if_pos hboot, if_pos hboot]
    rfl
  · exact (cut_iff (h hboot) hboot).2 nofun

theorem nextRecord_spec (h : node.Ordered store) (hcut : node.Cut store index) :
    (node.nextRecord store index = none → node.recordsFrom store index = []) ∧
    ∀ record index', node.nextRecord store index = some (record, index') →
      node.recordsFrom store index = record :: node.recordsFrom store index' ∧
        node.recordsBefore store index' = node.recordsBefore store index ++ [record] ∧
        (node.Inside store index → node.Inside store index') := by
  by_cases hboot : node.BootRing
  · unfold AstraEventsNode.nextRecord AstraEventsNode.recordsFrom AstraEventsNode.recordsBefore
      AstraEventsNode.Inside
    simp only [if_pos hboot, storeAt_eq, Option.map_eq_none_iff, Option.map_eq_some_iff]
    refine ⟨fun hn => drop_eq_nil_iff.2 (List.getElem?_eq_none_iff.1 hn), ?_⟩
    rintro record index' ⟨found, hfound, heq⟩
    cases heq
    obtain ⟨hlt, hat⟩ := List.getElem?_eq_some_iff.1 hfound
    rw [update_self, take_add_one, hfound, ← hat]
    exact ⟨drop_eq_getElem_cons hlt, rfl, fun _ => hlt⟩
  · have hs := h hboot
    obtain ⟨hnone, hsome⟩ := mergedNext_spec hs index
    unfold AstraEventsNode.nextRecord AstraEventsNode.recordsFrom AstraEventsNode.recordsBefore
      AstraEventsNode.Inside
    simp only [if_neg hboot]
    refine ⟨fun hn => by rw [hnone hn]; rfl, fun record index' hr => ?_⟩
    obtain ⟨hunseen, hseen, hlt, hinside⟩ := hsome record index' hr
    refine ⟨byKey_cons (hs.unseen index') hunseen hlt, ?_, hinside⟩
    have hmem : record ∈ store.unseenIn index := hunseen.mem_iff.2 mem_cons_self
    have hlast := (cut_iff hs hboot).1 hcut
    have hnew : (store.seenIn index').Perm (store.seenIn index ++ [record]) :=
      hseen.trans (perm_append_singleton _ _).symm
    rw [← byKey_congr (hs.seen index') hnew, byKey_append (hs.seen index) (pairwise_singleton _ _)]
    · rfl
    · intro a ha b hb
      rw [mem_singleton.1 hb]
      exact hlast a ha record hmem

end Astra
