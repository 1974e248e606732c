import AstraKernel.Proofs.EventsRuns
import Mathlib.Algebra.BigOperators.Group.Finset.Basic

/-!
# What the store has kept and what it has lost

The rings hold what the events of each tier leave them: the last that fit, and in the boot ring the
first. Each counter has 32 bits, so the account is exact as long as none has come around.
-/

namespace Astra

open Function List

/-! ## A list with room for its last entries -/

section last

variable {α : Type*} {room : ℕ}

theorem drop_concat (hroom : 0 < room) (l : List α) (x : α) :
    (l ++ [x]).drop (l.length + 1 - room) =
      (if room ≤ l.length then (l.drop (l.length - room)).tail else l.drop (l.length - room)) ++
        [x] := by
  rw [drop_append_of_le_length (by omega)]
  congr 1
  split_ifs with hfull
  · rw [tail_drop]
    congr 1
    omega
  · congr 1
    omega

theorem take_concat (hroom : 0 < room) (l : List α) (x : α) :
    (l ++ [x]).take (l.length + 1 - room) = l.take (l.length - room) ++
      (if room ≤ l.length then (l.drop (l.length - room)).head?.toList else []) := by
  rw [take_append_of_le_length (by omega)]
  split_ifs with hfull
  · rw [show l.length + 1 - room = l.length - room + 1 by omega, take_add_one,
      List.head?_drop]
  · rw [append_nil]
    congr 1
    omega

end last

/-! ## What is stored -/

/-- The records of the events that are stored at all. -/
def storedOf (events : List AstraEventDrained) : List AstraEventStored :=
  (events.filter fun event => event.level ≠ astraEventLevelDebug).map storedEvent

/-- Those of one tier. -/
def storedIn (events : List AstraEventDrained) (tier : EventTier) : List AstraEventStored :=
  (events.filter fun event => event.level ≠ astraEventLevelDebug ∧ tierOf event = tier).map
    storedEvent

/-- Those of the tier that its ring has no room for. -/
def displacedIn (events : List AstraEventDrained) (tier : EventTier) (capacity : ℕ) :
    List AstraEventStored :=
  (storedIn events tier).take ((storedIn events tier).length - capacity)

def filedTiers : List EventTier := [.presented, .record, .detail]

def displacedOf (start : AstraEventStore) (events : List AstraEventDrained) :
    List AstraEventStored :=
  filedTiers.flatMap fun tier => displacedIn events tier (start.tiers tier).capacity

/-- Whose history a record is, where the catalog knows its message. -/
def ownerOf (catalog : Option AstraEventCatalog) (record : AstraEventStored) : Option UInt8 :=
  (astraEventCatalogLookup catalog record.event.message).bind fun descriptor =>
    if descriptor.subsystem.toNat < astraEventSubsystemMax then some descriptor.subsystem else none

def lostBy (start : AstraEventStore) (events : List AstraEventDrained) (owner : Option UInt8) : ℕ :=
  (displacedOf start events).countP fun record => ownerOf start.catalog record = owner

def debugIn (events : List AstraEventDrained) : ℕ :=
  events.countP fun event => event.level = astraEventLevelDebug

variable {start store : AstraEventStore} {event : AstraEventDrained}
  {events : List AstraEventDrained} {tier : EventTier}

theorem filedTiers_of_ne_boot (h : tier ≠ .boot) : tier ∈ filedTiers := by
  cases tier <;> simp_all [filedTiers]

theorem tierOf_ne_boot (event : AstraEventDrained) : tierOf event ≠ .boot := by
  obtain ⟨tier, htier⟩ := tierOf_merged event
  exact htier ▸ mergedTier_ne_boot tier

theorem storedOf_concat (h : event.level ≠ astraEventLevelDebug) :
    storedOf (events ++ [event]) = storedOf events ++ [storedEvent event] := by
  simp [storedOf, h]

theorem storedOf_debug (h : event.level = astraEventLevelDebug) :
    storedOf (events ++ [event]) = storedOf events := by
  simp [storedOf, h]

theorem storedIn_debug (h : event.level = astraEventLevelDebug) (tier : EventTier) :
    storedIn (events ++ [event]) tier = storedIn events tier := by
  simp [storedIn, h]

theorem storedIn_own (h : event.level ≠ astraEventLevelDebug) :
    storedIn (events ++ [event]) (tierOf event) =
      storedIn events (tierOf event) ++ [storedEvent event] := by
  simp [storedIn, h]

theorem storedIn_other (h : tier ≠ tierOf event) :
    storedIn (events ++ [event]) tier = storedIn events tier := by
  simp [storedIn, h.symm]

theorem length_storedOf (events : List AstraEventDrained) :
    (storedOf events).length = (filedTiers.map fun tier => (storedIn events tier).length).sum := by
  induction events with
  | nil => rfl
  | cons event events ih =>
    simp only [storedOf, storedIn, filedTiers, length_map, map_cons, map_nil,
      sum_cons, sum_nil, filter_cons] at ih ⊢
    by_cases h : event.level = astraEventLevelDebug
    · simpa [h] using ih
    · have hcases : tierOf event = .presented ∨ tierOf event = .record ∨ tierOf event = .detail := by
        simpa [filedTiers] using filedTiers_of_ne_boot (tierOf_ne_boot event)
      obtain ht | ht | ht := hcases <;> simp [h, ht] at ih ⊢ <;> omega

/-! ## One append -/

theorem attributed_counts (store : AstraEventStore) (displaced : AstraEventStored) :
    (∀ k, (store.attributed displaced).evictedBySubsystem k = store.evictedBySubsystem k +
      if ownerOf store.catalog displaced = some k then 1 else 0) ∧
    (store.attributed displaced).evictedUnattributed = store.evictedUnattributed +
      (if ownerOf store.catalog displaced = none then 1 else 0) ∧
    (store.attributed displaced).stored = store.stored ∧
    (store.attributed displaced).droppedDebug = store.droppedDebug := by
  unfold AstraEventStore.attributed ownerOf
  rcases astraEventCatalogLookup store.catalog displaced.event.message with _ | descriptor
  · exact ⟨fun k => by simp, by simp, rfl, rfl⟩
  rw [Option.bind_some]
  dsimp only
  by_cases hsub : descriptor.subsystem.toNat < astraEventSubsystemMax
  · rw [if_pos hsub, if_pos hsub]
    refine ⟨fun k => ?_, by simp, rfl, rfl⟩
    by_cases hk : k = descriptor.subsystem
    · subst hk
      simp
    · simp [update_of_ne hk, Ne.symm hk]
  · rw [if_neg hsub, if_neg hsub]
    exact ⟨fun k => by simp, by simp, rfl, rfl⟩

def ownedRecords (catalog : Option AstraEventCatalog) (owner : Option UInt8)
    (records : List AstraEventStored) : ℕ :=
  records.countP fun record => ownerOf catalog record = owner

theorem filed_counts (store : AstraEventStore) (event : AstraEventDrained) :
    (∀ k, (store.filed event).evictedBySubsystem k = store.evictedBySubsystem k +
      UInt32.ofNat (ownedRecords store.catalog (some k)
        ((store.tiers (tierOf event)).push event).2.toList)) ∧
    (store.filed event).evictedUnattributed = store.evictedUnattributed +
      UInt32.ofNat (ownedRecords store.catalog none
        ((store.tiers (tierOf event)).push event).2.toList) ∧
    (store.filed event).stored = store.stored + 1 ∧
    (store.filed event).droppedDebug = store.droppedDebug := by
  unfold AstraEventStore.filed ownedRecords
  dsimp only
  rcases ((store.tiers (tierOf event)).push event).2 with _ | displaced
  · exact ⟨fun k => by simp [AstraEventStore.setTier], by simp [AstraEventStore.setTier], rfl, rfl⟩
  obtain ⟨hby, hun, hstored, hdebug⟩ := attributed_counts
    (store.setTier (tierOf event) ((store.tiers (tierOf event)).push event).1) displaced
  refine ⟨fun k => (hby k).trans ?_, hun.trans ?_, congrArg (· + 1) hstored, hdebug⟩
  · rw [setTier_catalog]
    by_cases hk : ownerOf store.catalog displaced = some k <;>
      simp [hk, AstraEventStore.setTier]
  · rw [setTier_catalog]
    by_cases hk : ownerOf store.catalog displaced = none <;>
      simp [hk, AstraEventStore.setTier]

theorem push_evicted (ring : AstraEventRing) (hpos : 0 < ring.capacity) (event : AstraEventDrained) :
    (ring.push event).1.capacity = ring.capacity ∧
    (ring.push event).1.evicted = ring.evicted + if ring.count = ring.capacity then 1 else 0 := by
  unfold AstraEventRing.push
  rw [if_neg hpos.ne']
  by_cases hfull : ring.count = ring.capacity
  · rw [if_pos hfull, if_pos hfull]
    exact ⟨rfl, rfl⟩
  · rw [if_neg hfull, if_neg hfull]
    exact ⟨rfl, (UInt32.add_zero _).symm⟩

/-! ## Runs -/

structure EventsTally (start store : AstraEventStore) (events : List AstraEventDrained) : Prop where
  rings : RingsSound store
  capacity : ∀ tier, (store.tiers tier).capacity = (start.tiers tier).capacity
  catalog : store.catalog = start.catalog
  boot : (store.tiers .boot).entries = (storedOf events).take (start.tiers .boot).capacity
  kept : ∀ tier ≠ .boot, (store.tiers tier).entries =
    (storedIn events tier).drop ((storedIn events tier).length - (start.tiers tier).capacity)
  evicted : ∀ tier ≠ .boot, (store.tiers tier).evicted =
    UInt32.ofNat ((storedIn events tier).length - (start.tiers tier).capacity)
  bySubsystem : ∀ k, store.evictedBySubsystem k = UInt32.ofNat (lostBy start events (some k))
  unattributed : store.evictedUnattributed = UInt32.ofNat (lostBy start events none)
  stored : store.stored = UInt32.ofNat (storedOf events).length
  debug : store.droppedDebug = UInt32.ofNat (debugIn events)

section

variable (h : EventsTally start store events)
include h

theorem EventsTally.append_debug (hd : event.level = astraEventLevelDebug) :
    EventsTally start (astraEventStoreAppend store event) (events ++ [event]) := by
  have hlost : ∀ owner, lostBy start (events ++ [event]) owner = lostBy start events owner := by
    intro owner
    simp only [lostBy, displacedOf, displacedIn, storedIn_debug hd]
  unfold astraEventStoreAppend
  rw [if_pos hd]
  refine ⟨h.rings, h.capacity, h.catalog, ?_, fun tier ht => ?_, fun tier ht => ?_, fun k => ?_, ?_,
    ?_, ?_⟩
  · rw [storedOf_debug hd]
    exact h.boot
  · rw [storedIn_debug hd]
    exact h.kept tier ht
  · rw [storedIn_debug hd]
    exact h.evicted tier ht
  · rw [hlost]
    exact h.bySubsystem k
  · rw [hlost]
    exact h.unattributed
  · rw [storedOf_debug hd]
    exact h.stored
  · show store.droppedDebug + 1 = _
    rw [h.debug, debugIn, debugIn, countP_append]
    simp [hd]

theorem EventsTally.displaced (hd : event.level ≠ astraEventLevelDebug) (ht : tier = tierOf event) :
    displacedIn (events ++ [event]) tier (start.tiers tier).capacity =
      displacedIn events tier (start.tiers tier).capacity ++
        ((store.tiers tier).push event).2.toList := by
  subst ht
  have hboot := tierOf_ne_boot event
  obtain ⟨hpos, hle, -⟩ := h.rings (tierOf event)
  obtain ⟨-, -, hdisplaced⟩ := entries_push (h.rings (tierOf event)) event
  have hcap := h.capacity (tierOf event)
  have hkept := h.kept _ hboot
  have hcount : (store.tiers (tierOf event)).count = (storedIn events (tierOf event)).length -
      ((storedIn events (tierOf event)).length - (start.tiers (tierOf event)).capacity) := by
    rw [← length_entries, hkept, length_drop]
  rw [hdisplaced, displacedIn, displacedIn, storedIn_own hd, length_append,
    length_singleton, take_concat (hcap ▸ hpos), hkept]
  congr 1
  rw [apply_ite Option.toList, Option.toList_none]
  exact if_congr (by omega) rfl rfl

theorem EventsTally.lost (hd : event.level ≠ astraEventLevelDebug) (owner : Option UInt8) :
    lostBy start (events ++ [event]) owner = lostBy start events owner +
      ownedRecords start.catalog owner ((store.tiers (tierOf event)).push event).2.toList := by
  have hother : ∀ tier ≠ tierOf event, displacedIn (events ++ [event]) tier
      (start.tiers tier).capacity = displacedIn events tier (start.tiers tier).capacity := by
    intro tier htier
    rw [displacedIn, displacedIn, storedIn_other htier]
  have hown := h.displaced hd rfl
  unfold lostBy displacedOf ownedRecords
  have hcases : tierOf event = .presented ∨ tierOf event = .record ∨ tierOf event = .detail := by
    simpa [filedTiers] using filedTiers_of_ne_boot (tierOf_ne_boot event)
  simp only [filedTiers, flatMap_cons, flatMap_nil, countP_append, countP_nil]
  obtain ht | ht | ht := hcases <;> rw [ht] at hown hother ⊢ <;>
    rw [hown, hother _ (by decide), hother _ (by decide), countP_append] <;> omega

end

theorem append_stored (store : AstraEventStore) (hd : event.level ≠ astraEventLevelDebug) :
    astraEventStoreAppend store event = store.filed event ∧
      (store.tiers .boot).capacity ≤ (store.tiers .boot).count ∨
    astraEventStoreAppend store event =
      (store.filed event).setTier .boot ((store.tiers .boot).push event).1 ∧
      (store.tiers .boot).count < (store.tiers .boot).capacity := by
  have hboot : (store.filed event).tiers .boot = store.tiers .boot := by
    rw [(filed_spec store event).1, update_of_ne (tierOf_ne_boot event).symm]
  unfold astraEventStoreAppend
  rw [if_neg hd]
  dsimp only
  rw [hboot]
  split
  · rename_i hroom
    exact .inr ⟨rfl, hroom⟩
  · rename_i hroom
    exact .inl ⟨rfl, Nat.le_of_not_lt hroom⟩

theorem append_tier (store : AstraEventStore) (hd : event.level ≠ astraEventLevelDebug)
    (h : tier ≠ .boot) : (astraEventStoreAppend store event).tiers tier =
      if tier = tierOf event then ((store.tiers tier).push event).1 else store.tiers tier := by
  have hfiled : (store.filed event).tiers tier =
      if tier = tierOf event then ((store.tiers tier).push event).1 else store.tiers tier := by
    rw [(filed_spec store event).1]
    split_ifs with ht
    · rw [ht, update_self]
    · exact update_of_ne ht _ _
  obtain ⟨happend, -⟩ | ⟨happend, -⟩ := append_stored store hd <;> rw [happend]
  · exact hfiled
  · rw [setTier_of_ne h, hfiled]

theorem append_boot (hs : RingsSound store) (hd : event.level ≠ astraEventLevelDebug) :
    ((astraEventStoreAppend store event).tiers .boot).entries =
      ((store.tiers .boot).entries ++ [storedEvent event]).take (store.tiers .boot).capacity ∧
    ((astraEventStoreAppend store event).tiers .boot).capacity = (store.tiers .boot).capacity := by
  have hboot : (store.filed event).tiers .boot = store.tiers .boot := by
    rw [(filed_spec store event).1, update_of_ne (tierOf_ne_boot event).symm]
  have hlength := length_entries (store.tiers .boot)
  obtain ⟨-, hentries, -⟩ := entries_push (hs .boot) event
  obtain ⟨happend, hroom⟩ | ⟨happend, hroom⟩ := append_stored store hd <;> rw [happend]
  · rw [hboot, take_append_of_le_length (hlength ▸ hroom), take_of_length_le]
    · exact ⟨rfl, rfl⟩
    · exact hlength ▸ (hs .boot).count_le
  · rw [setTier_self, hentries, if_neg hroom.ne, take_of_length_le]
    · exact ⟨rfl, (push_evicted _ (hs .boot).capacity_pos event).1⟩
    · rw [length_append, hlength]
      exact hroom

theorem append_counts (store : AstraEventStore) (hd : event.level ≠ astraEventLevelDebug) :
    (astraEventStoreAppend store event).evictedBySubsystem = (store.filed event).evictedBySubsystem ∧
    (astraEventStoreAppend store event).evictedUnattributed =
      (store.filed event).evictedUnattributed ∧
    (astraEventStoreAppend store event).stored = (store.filed event).stored ∧
    (astraEventStoreAppend store event).droppedDebug = (store.filed event).droppedDebug := by
  obtain ⟨happend, -⟩ | ⟨happend, -⟩ := append_stored store hd <;> rw [happend] <;>
    exact ⟨rfl, rfl, rfl, rfl⟩

section

variable (h : EventsTally start store events)
include h

theorem EventsTally.append_filed (hd : event.level ≠ astraEventLevelDebug) :
    EventsTally start (astraEventStoreAppend store event) (events ++ [event]) := by
  have happends := append_spec h.rings hd
  obtain ⟨hby, hun, hstored, hdebug⟩ := append_counts store hd
  obtain ⟨fby, fun', fstored, fdebug⟩ := filed_counts store event
  obtain ⟨bentries, bcapacity⟩ := append_boot h.rings hd
  obtain ⟨hpos, -, -⟩ := h.rings (tierOf event)
  obtain ⟨-, hentries, -⟩ := entries_push (h.rings (tierOf event)) event
  obtain ⟨hcapacity, hevicted⟩ := push_evicted (store.tiers (tierOf event)) hpos event
  have hboot := tierOf_ne_boot event
  have hcap := h.capacity (tierOf event)
  have hcount : (store.tiers (tierOf event)).count = (storedIn events (tierOf event)).length -
      ((storedIn events (tierOf event)).length - (start.tiers (tierOf event)).capacity) := by
    rw [← length_entries, h.kept _ hboot, length_drop]
  have hfull : (store.tiers (tierOf event)).count = (store.tiers (tierOf event)).capacity ↔
      (start.tiers (tierOf event)).capacity ≤ (storedIn events (tierOf event)).length := by
    omega
  refine ⟨happends.rings, fun tier => ?_, happends.catalog.trans h.catalog, ?_, fun tier ht => ?_,
    fun tier ht => ?_, fun k => ?_, ?_, ?_, ?_⟩
  · rcases eq_or_ne tier .boot with rfl | ht
    · exact bcapacity.trans (h.capacity _)
    · rw [append_tier store hd ht]
      split_ifs with hown
      · rw [hown, hcapacity, hcap]
      · exact h.capacity tier
  · rw [bentries, h.boot, h.capacity, storedOf_concat hd]
    rw [take_append, take_append, take_take, Nat.min_self, length_take]
    congr 2
    omega
  · rw [append_tier store hd ht]
    split_ifs with hown
    · subst hown
      rw [hentries, storedIn_own hd, length_append, length_singleton,
        drop_concat (hcap ▸ hpos), h.kept _ ht, if_congr hfull rfl rfl]
    · rw [storedIn_other hown, h.kept tier ht]
  · rw [append_tier store hd ht]
    split_ifs with hown
    · subst hown
      rw [hevicted, h.evicted _ ht, storedIn_own hd, length_append, length_singleton,
        if_congr hfull rfl rfl]
      split_ifs with hle
      · rw [← UInt32.ofNat_one, ← UInt32.ofNat_add]
        congr 1
        omega
      · rw [UInt32.add_zero]
        congr 1
        omega
    · rw [storedIn_other hown, h.evicted tier ht]
  · rw [hby, fby, h.bySubsystem, h.lost hd, h.catalog, UInt32.ofNat_add]
  · rw [hun, fun', h.unattributed, h.lost hd, h.catalog, UInt32.ofNat_add]
  · rw [hstored, fstored, h.stored, storedOf_concat hd, length_append, UInt32.ofNat_add]
    rfl
  · rw [hdebug, fdebug, h.debug, debugIn, debugIn, countP_append]
    simp [hd]

theorem EventsTally.append (event : AstraEventDrained) :
    EventsTally start (astraEventStoreAppend store event) (events ++ [event]) := by
  by_cases hd : event.level = astraEventLevelDebug
  · exact h.append_debug hd
  · exact h.append_filed hd

theorem EventsTally.foldl : ∀ later : List AstraEventDrained,
    EventsTally start (later.foldl astraEventStoreAppend store) (events ++ later) := by
  intro later
  induction later generalizing store events with
  | nil => simpa using h
  | cons event later ih => simpa using ih (h.append event)

end

theorem startRing_entries (records : ℕ → AstraEventStored) (capacity : ℕ) :
    (AstraEventRing.start records capacity).entries = [] := rfl

theorem storeInit_tally {records : ℕ → AstraEventStored} {count : ℕ}
    {catalog : Option AstraEventCatalog} (h : astraEventStoreInit records count catalog = some store) :
    EventsTally store store [] := by
  have hrings := (storeInit_sound h).1
  unfold astraEventStoreInit at h
  dsimp only at h
  split_ifs at h
  cases h
  have hnone : ∀ owner start, lostBy start [] owner = 0 := by
    intro owner start
    simp [lostBy, displacedOf, displacedIn, storedIn]
  refine ⟨hrings, fun tier => rfl, rfl, take_nil.symm, fun tier _ => ?_, fun tier _ => ?_, fun k => ?_, ?_, rfl,
    rfl⟩
  · rw [show storedIn [] tier = [] from rfl, drop_nil]
    cases tier <;> exact startRing_entries _ _
  · cases tier <;> simp [storedIn, AstraEventRing.start]
  · rw [hnone]
    rfl
  · rw [hnone]
    rfl

/-! ## The account -/

/-- A count that stays at the last value of 32 bits. -/
def saturated (n : ℕ) : ℕ := min n (2 ^ 32 - 1)

/-- What is held is what it should be, and the counters are exact. -/
structure EventsAccounted (start store : AstraEventStore) (events : List AstraEventDrained) :
    Prop where
  boot : (store.tiers .boot).entries = (storedOf events).take (start.tiers .boot).capacity
  kept : ∀ tier ≠ .boot, (store.tiers tier).entries =
    (storedIn events tier).drop ((storedIn events tier).length - (start.tiers tier).capacity)
  total : store.stored.toNat = (filedTiers.map fun tier =>
    (store.tiers tier).count + (store.tiers tier).evicted.toNat).sum
  attributed : (∑ k ∈ Finset.range astraEventSubsystemMax,
      (store.evictedBySubsystem (UInt8.ofNat k)).toNat) + store.evictedUnattributed.toNat =
    (filedTiers.map fun tier => (store.tiers tier).evicted.toNat).sum
  stored : store.stored.toNat = saturated (storedOf events).length
  evicted : ∀ tier ≠ .boot, (store.tiers tier).evicted.toNat =
    saturated ((storedIn events tier).length - (start.tiers tier).capacity)
  bySubsystem : ∀ k, (store.evictedBySubsystem k).toNat = saturated (lostBy start events (some k))
  unattributed : store.evictedUnattributed.toNat = saturated (lostBy start events none)
  debug : store.droppedDebug.toNat = saturated (debugIn events)

theorem toNat_saturated {n : ℕ} (h : n < 2 ^ 32) : (UInt32.ofNat n).toNat = saturated n := by
  rw [UInt32.toNat_ofNat', Nat.mod_eq_of_lt h, saturated]
  omega

theorem ownedRecords_total (catalog : Option AstraEventCatalog) (records : List AstraEventStored) :
    (∑ k ∈ Finset.range astraEventSubsystemMax,
      ownedRecords catalog (some (UInt8.ofNat k)) records) + ownedRecords catalog none records =
    records.length := by
  induction records with
  | nil => simp [ownedRecords]
  | cons record records ih =>
    have hone : (∑ k ∈ Finset.range astraEventSubsystemMax,
        if ownerOf catalog record = some (UInt8.ofNat k) then 1 else 0) +
        (if ownerOf catalog record = none then 1 else 0) = 1 := by
      have howner : ∀ k ∈ ownerOf catalog record, k.toNat < astraEventSubsystemMax := by
        intro k hk
        obtain ⟨descriptor, -, hdescriptor⟩ := Option.bind_eq_some_iff.1 hk
        split_ifs at hdescriptor with hlt
        exact Option.some.inj hdescriptor ▸ hlt
      rcases hcase : ownerOf catalog record with _ | k
      · simp
      · have hlt := howner k hcase
        rw [Finset.sum_eq_single_of_mem k.toNat (Finset.mem_range.2 hlt)]
        · simp
        · intro j hj hne
          have hj' := Finset.mem_range.1 hj
          refine if_neg fun heq => hne ?_
          rw [Option.some.inj heq, UInt8.toNat_ofNat', Nat.mod_eq_of_lt (hj'.trans (by decide))]
    have hcons : ∀ owner, ownedRecords catalog owner (record :: records) =
        ownedRecords catalog owner records + if ownerOf catalog record = owner then 1 else 0 := by
      intro owner
      simp [ownedRecords, countP_cons]
    simp only [hcons, Finset.sum_add_distrib, length_cons]
    omega

theorem length_displacedOf (start : AstraEventStore) (events : List AstraEventDrained) :
    (displacedOf start events).length = (filedTiers.map fun tier =>
      (storedIn events tier).length - (start.tiers tier).capacity).sum := by
  rw [displacedOf, length_flatMap]
  congr 1
  refine map_congr_left fun tier _ => ?_
  rw [displacedIn, length_take]
  omega

theorem EventsTally.accounted (h : EventsTally start store events)
    (hstored : (storedOf events).length < 2 ^ 32) (hdebug : debugIn events < 2 ^ 32) :
    EventsAccounted start store events := by
  have hsum := length_storedOf events
  have hlost := length_displacedOf start events
  simp only [filedTiers, map_cons, map_nil, sum_cons, sum_nil] at hsum hlost
  have hcounted : ∀ owner, lostBy start events owner < 2 ^ 32 := by
    intro owner
    have : lostBy start events owner ≤ (displacedOf start events).length := countP_le_length
    omega
  have htier : ∀ tier ≠ .boot, (storedIn events tier).length < 2 ^ 32 := by
    intro tier ht
    cases tier
    case boot => exact (ht rfl).elim
    all_goals omega
  have hevicted : ∀ tier ≠ .boot, (store.tiers tier).evicted.toNat =
      (storedIn events tier).length - (start.tiers tier).capacity := by
    intro tier ht
    have := htier tier ht
    rw [h.evicted tier ht, UInt32.toNat_ofNat', Nat.mod_eq_of_lt (by omega)]
  have hheld : ∀ tier ≠ .boot, (store.tiers tier).count + (store.tiers tier).evicted.toNat =
      (storedIn events tier).length := by
    intro tier ht
    rw [hevicted tier ht, ← length_entries, h.kept tier ht, length_drop]
    omega
  have hby : ∀ owner, (UInt32.ofNat (lostBy start events owner)).toNat =
      ownedRecords start.catalog owner (displacedOf start events) := by
    intro owner
    rw [UInt32.toNat_ofNat', Nat.mod_eq_of_lt (hcounted owner)]
    rfl
  refine ⟨h.boot, h.kept, ?_, ?_, ?_, fun tier ht => ?_, fun k => ?_, ?_, ?_⟩
  · rw [h.stored, UInt32.toNat_ofNat', Nat.mod_eq_of_lt hstored, hsum]
    simp [filedTiers, hheld]
  · simp only [h.bySubsystem, h.unattributed, hby]
    rw [ownedRecords_total, hlost]
    simp [filedTiers, hevicted]
  · rw [h.stored, toNat_saturated hstored]
  · have := htier tier ht
    rw [h.evicted tier ht, toNat_saturated (by omega)]
  · rw [h.bySubsystem, toNat_saturated (hcounted _)]
  · rw [h.unattributed, toNat_saturated (hcounted _)]
  · rw [h.debug, toNat_saturated hdebug]

theorem EventsTally.not_accounted (h : EventsTally start store events)
    (hround : (storedOf events).length = 2 ^ 32 ∨ debugIn events = 2 ^ 32) :
    ¬EventsAccounted start store events := by
  intro ha
  obtain hround | hround := hround
  · have hstored := ha.stored
    rw [h.stored, hround] at hstored
    exact absurd hstored (by decide)
  · have hdebug := ha.debug
    rw [h.debug, hround] at hdebug
    exact absurd hdebug (by decide)

theorem exists_take_countP {α : Type*} (p : α → Bool) :
    ∀ (l : List α) {b : ℕ}, b ≤ l.countP p → ∃ n, (l.take n).countP p = b
  | l, 0, _ => ⟨0, by simp⟩
  | [], b + 1, h => absurd h (by simp)
  | x :: l, b + 1, h => by
    rw [countP_cons] at h
    split at h
    · rename_i hx
      obtain ⟨n, hn⟩ := exists_take_countP p l (Nat.le_of_add_le_add_right h)
      exact ⟨n + 1, by simp [hx, hn]⟩
    · rename_i hx
      obtain ⟨n, hn⟩ := exists_take_countP p l h
      exact ⟨n + 1, by simp [hx, hn]⟩

theorem length_storedOf_eq (events : List AstraEventDrained) : (storedOf events).length =
    events.countP fun event => event.level ≠ astraEventLevelDebug := by
  rw [storedOf, length_map, countP_eq_length_filter]

theorem countP_infoEvents (p : AstraEventDrained → Bool) (n : ℕ)
    (h : p (infoEvent 1) = true) : (List.replicate n (infoEvent 1)).countP p = n := by
  rw [countP_replicate, if_pos h]

end Astra
