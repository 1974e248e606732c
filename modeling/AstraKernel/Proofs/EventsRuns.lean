import AstraKernel.Proofs.EventsRead

/-!
# Reading a log that grows

An append puts one record behind the others, and drops one from a ring that is full (`append_spec`).
As long as no record is dropped that a node has counted or begun to give, and its offset fits in 32
bits, what its reads have given is the start of the whole text, whatever was appended between them.
-/

namespace Astra

open Function List

variable {store store' : AstraEventStore} {node : AstraEventsNode} {event : AstraEventDrained}
  {position : ℕ}

/-! ## An append -/

variable (tier : EventTier) (ring : AstraEventRing)

@[simp] theorem setTier_catalog : (store.setTier tier ring).catalog = store.catalog := rfl

@[simp] theorem setTier_self :
    (store.setTier tier ring).tiers tier = ring := update_self ..

theorem setTier_of_ne {tier tier' : EventTier} (h : tier' ≠ tier) (ring : AstraEventRing) :
    (store.setTier tier ring).tiers tier' = store.tiers tier' := update_of_ne h ..

@[simp] theorem attributed_tiers (store : AstraEventStore) (displaced : AstraEventStored) :
    (store.attributed displaced).tiers = store.tiers := by
  unfold AstraEventStore.attributed
  split
  · split_ifs <;> rfl
  · rfl

@[simp] theorem attributed_catalog (store : AstraEventStore) (displaced : AstraEventStored) :
    (store.attributed displaced).catalog = store.catalog := by
  unfold AstraEventStore.attributed
  split
  · split_ifs <;> rfl
  · rfl

def RingsSound (store : AstraEventStore) : Prop := ∀ tier, EventRingSound (store.tiers tier)

theorem tierOf_merged (event : AstraEventDrained) : ∃ tier, mergedTier tier = tierOf event := by
  unfold tierOf
  split_ifs
  · exact ⟨0, rfl⟩
  · exact ⟨2, rfl⟩
  · exact ⟨1, rfl⟩

theorem mergedTier_ne_boot (tier : Fin 3) : mergedTier tier ≠ .boot := by
  revert tier
  decide

theorem mergedTier_injective : Function.Injective mergedTier := by
  decide

structure Appends (store store' : AstraEventStore) (event : AstraEventDrained) : Prop where
  rings : RingsSound store'
  catalog : store'.catalog = store.catalog
  own : ∀ tier, mergedTier tier = tierOf event → store'.ofTier tier =
    (if (store.tiers (tierOf event)).count = (store.tiers (tierOf event)).capacity then
      (store.ofTier tier).tail else store.ofTier tier) ++ [storedEvent event]
  others : ∀ tier, mergedTier tier ≠ tierOf event → store'.ofTier tier = store.ofTier tier
  boot : ∃ new, (store'.tiers .boot).entries = (store.tiers .boot).entries ++ new

theorem filed_spec (store : AstraEventStore) (event : AstraEventDrained) :
    (store.filed event).tiers = update store.tiers (tierOf event)
      ((store.tiers (tierOf event)).push event).1 ∧ (store.filed event).catalog = store.catalog := by
  unfold AstraEventStore.filed
  dsimp only
  cases ((store.tiers (tierOf event)).push event).2 with
  | none => exact ⟨rfl, rfl⟩
  | some displaced => exact ⟨attributed_tiers _ _, attributed_catalog _ _⟩

theorem append_spec (hs : RingsSound store) (h : event.level ≠ astraEventLevelDebug) :
    Appends store (astraEventStoreAppend store event) event := by
  obtain ⟨tier, htier⟩ := tierOf_merged event
  have hboot : tierOf event ≠ .boot := htier ▸ mergedTier_ne_boot tier
  obtain ⟨hring, hentries, -⟩ := entries_push (hs (tierOf event)) event
  obtain ⟨hbootRing, hbootEntries, -⟩ := entries_push (hs .boot) event
  obtain ⟨htiers, hcatalog⟩ := filed_spec store event
  have hown : (store.filed event).tiers (tierOf event) =
      ((store.tiers (tierOf event)).push event).1 := by
    rw [htiers, update_self]
  have hothers : ∀ tier' ≠ tierOf event, (store.filed event).tiers tier' = store.tiers tier' := by
    intro tier' hne
    rw [htiers, update_of_ne hne]
  have hsound : RingsSound (store.filed event) := by
    intro tier'
    by_cases htier' : tier' = tierOf event
    · rw [htier', hown]
      exact hring
    · rw [hothers tier' htier']
      exact hs tier'
  have hfiled : Appends store (store.filed event) event := by
    refine ⟨hsound, hcatalog, fun tier htier => ?_, fun tier htier => ?_, [], ?_⟩
    · unfold AstraEventStore.ofTier
      rw [htier, hown, hentries]
    · unfold AstraEventStore.ofTier
      rw [hothers _ htier]
    · rw [hothers _ hboot.symm, append_nil]
  unfold astraEventStoreAppend
  rw [if_neg h]
  dsimp only
  rw [hothers _ hboot.symm]
  split_ifs with hroom
  · have hfree : (store.tiers .boot).count ≠ (store.tiers .boot).capacity := hroom.ne
    rw [if_neg hfree] at hbootEntries
    have hkept : ∀ tier, ((store.filed event).setTier .boot
        ((store.tiers .boot).push event).1).ofTier tier = (store.filed event).ofTier tier := by
      intro tier
      unfold AstraEventStore.ofTier
      rw [setTier_of_ne (mergedTier_ne_boot tier)]
    refine ⟨fun tier' => ?_, hcatalog, fun tier htier => (hkept tier).trans (hfiled.own tier htier),
      fun tier htier => (hkept tier).trans (hfiled.others tier htier), [storedEvent event], ?_⟩
    · by_cases htier' : tier' = .boot
      · rw [htier', setTier_self]
        exact hbootRing
      · rw [setTier_of_ne htier']
        exact hsound tier'
    · rw [setTier_self, hbootEntries]
  · exact hfiled

/-! ## What an append does to a reader -/

namespace AstraEventsNode

variable (node : AstraEventsNode)

/-- Where the line of a record stands in the whole text. -/
def placeOf (store : AstraEventStore) (record : AstraEventStored) : ℕ :=
  (node.textOf store
    ((node.records store).filter fun other => sequenceOf other < sequenceOf record)).length

/-- The append drops no record that the node has counted, or whose line it has begun to give. -/
def KeepsRead (store : AstraEventStore) (event : AstraEventDrained) (position : ℕ) : Prop :=
  ∀ tier, mergedTier tier = tierOf event →
    (store.tiers (tierOf event)).count = (store.tiers (tierOf event)).capacity →
    node.memoIndex tier = 0 ∧ ∀ dropped ∈ (store.ofTier tier).head?,
      eventMatches store.catalog node dropped → position ≤ node.placeOf store dropped

instance (store : AstraEventStore) (event : AstraEventDrained) (position : ℕ) :
    Decidable (node.KeepsRead store event position) := by
  unfold KeepsRead
  infer_instance

end AstraEventsNode

structure Moves (node : AstraEventsNode) (store store' : AstraEventStore)
    (event : AstraEventDrained) (position : ℕ) (gone kept : List AstraEventStored) : Prop where
  seen : store'.seenIn node.memoIndex = store.seenIn node.memoIndex
  before : (store.unseenIn node.memoIndex).Perm (gone ++ kept)
  behind : (store'.unseenIn node.memoIndex).Perm (storedEvent event :: kept)
  dropped : gone = [] ∨ ∃ dropped, gone = [dropped] ∧
    (eventMatches store.catalog node dropped → position ≤ node.placeOf store dropped)

theorem moves_of_appends (h : Appends store store' event)
    (hinside : ∀ tier, node.memoIndex tier ≤ (store.ofTier tier).length)
    (hsafe : node.KeepsRead store event position) :
    ∃ gone kept, Moves node store store' event position gone kept := by
  obtain ⟨tier, htier⟩ := tierOf_merged event
  have hown := h.own tier htier
  have hothers : ∀ other ≠ tier, store'.ofTier other = store.ofTier other := fun other hne =>
    h.others other fun he => hne (mergedTier_injective (he.trans htier.symm))
  have hnodup : [(0 : Fin 3), 1, 2].Nodup := by decide
  have hmem := mem_mergedTiers tier
  have hseen : (store'.ofTier tier).take (node.memoIndex tier) =
      (store.ofTier tier).take (node.memoIndex tier) →
      store'.seenIn node.memoIndex = store.seenIn node.memoIndex := by
    intro hsame
    refine flatMap_congr fun other _ => ?_
    by_cases hother : other = tier
    · rw [hother, hsame]
    · rw [hothers other hother]
  by_cases hfull : (store.tiers (tierOf event)).count = (store.tiers (tierOf event)).capacity
  · -- The oldest record of the ring is dropped.
    rw [if_pos hfull] at hown
    obtain ⟨hzero, hplace⟩ := hsafe tier htier hfull
    have hseen' := hseen (by rw [hzero]; rfl)
    cases hring : store.ofTier tier with
    | nil =>
      rw [hring, tail_nil, nil_append] at hown
      refine ⟨[], store.unseenIn node.memoIndex, hseen', .refl _, ?_, .inl rfl⟩
      refine flatMap_cons_perm ?_ (fun other hne => by rw [hothers other hne]) hnodup hmem
      rw [hown, hring, hzero]
      rfl
    | cons dropped rest =>
      rw [hring, tail_cons] at hown
      rw [hring, List.head?_cons] at hplace
      refine ⟨[dropped], [0, 1, 2].flatMap fun other =>
        if other = tier then rest else (store.ofTier other).drop (node.memoIndex other), hseen', ?_,
        ?_, .inr ⟨dropped, rfl, hplace dropped rfl⟩⟩
      · refine flatMap_cons_perm ?_ (fun other hne => (if_neg hne).symm) hnodup hmem
        rw [if_pos rfl, hring, hzero]
        rfl
      · refine flatMap_cons_perm ?_ (fun other hne => ?_) hnodup hmem
        · rw [if_pos rfl, hown, hzero]
          exact perm_append_singleton _ _
        · rw [if_neg hne, hothers other hne]
  · rw [if_neg hfull] at hown
    refine ⟨[], store.unseenIn node.memoIndex, hseen ?_, .refl _, ?_, .inl rfl⟩
    · rw [hown, take_append_of_le_length (hinside tier)]
    · refine flatMap_cons_perm ?_ (fun other hne => by rw [hothers other hne]) hnodup hmem
      rw [hown, drop_append_of_le_length (hinside tier)]
      exact perm_append_singleton _ _

theorem textOf_catalog (h : store'.catalog = store.catalog) (records : List AstraEventStored) :
    node.textOf store' records = node.textOf store records := by
  unfold AstraEventsNode.textOf
  rw [h]

variable {output : List UInt8} {catalog : Option AstraEventCatalog} {count : ℕ}
  {records : ℕ → AstraEventStored}

theorem prefix_without {gone kept records : List AstraEventStored}
    (hascending : AscendingBy sequenceOf (node.records store))
    (hperm : (node.records store).Perm (gone ++ kept))
    (hdropped : gone = [] ∨ ∃ dropped, gone = [dropped] ∧
      (eventMatches store.catalog node dropped → output.length ≤ node.placeOf store dropped))
    (houtput : output <+: node.wholeText store) :
    output <+: node.textOf store (byKey sequenceOf kept ++ records) := by
  rw [textOf_append]
  refine List.IsPrefix.trans ?_ (prefix_append _ _)
  rcases hdropped with rfl | ⟨dropped, rfl, hplace⟩
  · rw [nil_append] at hperm
    rw [byKey_eq hascending hperm]
    exact houtput
  · obtain ⟨before, behind, hsplit⟩ := append_of_mem
      (hperm.mem_iff.2 (mem_cons_self (a := dropped) (l := kept)))
    rw [hsplit] at hascending hperm
    have hkept : byKey sequenceOf kept = before ++ behind := byKey_without hascending hperm
    unfold AstraEventsNode.wholeText at houtput
    rw [hsplit, textOf_append] at houtput
    rw [hkept, textOf_append]
    by_cases hwanted : eventMatches store.catalog node dropped
    · have hle := hplace hwanted
      unfold AstraEventsNode.placeOf at hle
      rw [hsplit, filter_before hascending] at hle
      exact (prefix_of_prefix_length_le houtput (prefix_append _ _) hle).trans
        (prefix_append _ _)
    · rw [textOf_cons_of_not (Bool.not_eq_true _ ▸ hwanted)] at houtput
      exact houtput

theorem appends_tiers (hs : InSequence store) (ha : Appends store store' event)
    (hnew : ∀ record ∈ store.merged, sequenceOf record < event.sequence.toNat) (tier : Fin 3) :
    AscendingBy sequenceOf (store'.ofTier tier) := by
  by_cases htier : mergedTier tier = tierOf event
  · rw [ha.own tier htier]
    have hbefore : ∀ record ∈ store.ofTier tier,
        sequenceOf record < sequenceOf (storedEvent event) := fun record hrecord =>
      hnew record (mem_flatMap.2 ⟨tier, mem_mergedTiers tier, hrecord⟩)
    refine pairwise_append.2 ⟨?_, pairwise_singleton _ _, fun record hrecord other ho => ?_⟩
    · split_ifs
      · exact (hs.tiers tier).sublist (tail_sublist _)
      · exact hs.tiers tier
    · rw [mem_singleton.1 ho]
      split_ifs at hrecord
      · exact hbefore record (mem_of_mem_tail hrecord)
      · exact hbefore record hrecord
  · rw [ha.others tier htier]
    exact hs.tiers tier

theorem appends_inside (ha : Appends store store' event)
    (hsafe : node.KeepsRead store event position)
    (hinside : ∀ tier, node.memoIndex tier ≤ (store.ofTier tier).length) (tier : Fin 3) :
    node.memoIndex tier ≤ (store'.ofTier tier).length := by
  by_cases htier : mergedTier tier = tierOf event
  · rw [ha.own tier htier, length_append]
    split_ifs with hfull
    · rw [(hsafe tier htier hfull).1]
      exact Nat.zero_le _
    · exact (hinside tier).trans (Nat.le_add_right _ _)
  · rw [ha.others tier htier]
    exact hinside tier

theorem append_keeps (hboot : ¬node.BootRing) (hs : InSequence store)
    (h : Remembers node store position) (ha : Appends store store' event)
    (hsafe : node.KeepsRead store event position)
    (hnew : ∀ record ∈ store.merged, sequenceOf record < event.sequence.toNat) :
    InSequence store' ∧ Remembers node store' position ∧
      ∀ output, output.length = position → output <+: node.wholeText store →
        output <+: node.wholeText store' := by
  have hinside : ∀ tier, node.memoIndex tier ≤ (store.ofTier tier).length := by
    have := h.readAt.inside
    unfold AstraEventsNode.Inside at this
    rwa [if_neg hboot] at this
  have hcut := (cut_iff hs hboot).1 h.readAt.cut
  obtain ⟨gone, kept, hm⟩ := moves_of_appends ha hinside hsafe
  have hall : (store.seenIn node.memoIndex ++ (gone ++ kept)).Perm store.merged :=
    (hm.before.symm.append_left _).trans (seen_unseen store _)
  have hall' : (storedEvent event :: (store.seenIn node.memoIndex ++ kept)).Perm store'.merged := by
    refine List.Perm.trans ?_ (seen_unseen store' node.memoIndex)
    rw [hm.seen]
    exact perm_middle.symm.trans (hm.behind.symm.append_left _)
  have hrest : DistinctBy sequenceOf (store.seenIn node.memoIndex ++ kept) :=
    (hs.distinct.perm hall.symm).sublist
      (List.Sublist.append_left (sublist_append_right _ _) _)
  have hbelow : ∀ record ∈ store.seenIn node.memoIndex ++ kept,
      sequenceOf record < sequenceOf (storedEvent event) := by
    intro record hrecord
    refine hnew record (hall.mem_iff.1 ?_)
    simp only [mem_append] at hrecord ⊢
    tauto
  have hs' : InSequence store' := by
    refine ⟨appends_tiers hs ha hnew, DistinctBy.perm (pairwise_cons.2 ⟨?_, hrest⟩) hall'⟩
    exact fun record hrecord => (hbelow record hrecord).ne'
  refine ⟨hs', ⟨⟨?_, ?_, ?_⟩, h.le, h.fresh⟩, fun output hlength houtput => ?_⟩
  · -- The new record comes behind all that has been seen.
    refine (cut_iff hs' hboot).2 fun a haSeen b hb => ?_
    rw [hm.seen] at haSeen
    rcases mem_cons.1 (hm.behind.mem_iff.1 hb) with rfl | hkept
    · exact hbelow a (mem_append_left _ haSeen)
    · exact hcut a haSeen b (hm.before.mem_iff.2 (mem_append_right _ hkept))
  · unfold AstraEventsNode.Inside
    rw [if_neg hboot]
    exact appends_inside ha hsafe hinside
  · have hbefore : node.recordsBefore store' node.memoIndex =
        node.recordsBefore store node.memoIndex := by
      unfold AstraEventsNode.recordsBefore
      rw [if_neg hboot, if_neg hboot, hm.seen]
    rw [hbefore, textOf_catalog ha.catalog]
    exact h.readAt.place
  · have hrecords : node.records store' =
        byKey sequenceOf (store.seenIn node.memoIndex ++ kept) ++ [storedEvent event] := by
      unfold AstraEventsNode.records
      rw [if_neg hboot]
      refine byKey_eq (pairwise_append.2 ⟨byKey_ascending hrest, pairwise_singleton _ _,
        fun record hrecord other ho => ?_⟩) ?_
      · rw [mem_singleton.1 ho]
        exact hbelow record ((byKey_perm _ _).mem_iff.1 hrecord)
      · exact (perm_append_singleton _ _).trans (((byKey_perm _ _).cons _).trans hall')
    have hperm : (node.records store).Perm (gone ++ (store.seenIn node.memoIndex ++ kept)) := by
      have hown : (node.records store).Perm store.merged := by
        unfold AstraEventsNode.records
        rw [if_neg hboot]
        exact byKey_perm _ _
      refine (hown.trans hall.symm).trans ?_
      rw [← append_assoc, ← append_assoc]
      exact perm_append_comm.append_right _
    unfold AstraEventsNode.wholeText
    rw [hrecords, textOf_catalog ha.catalog]
    exact prefix_without (records_ascending hs hboot) hperm (hlength ▸ hm.dropped) houtput

theorem append_keeps_boot (hboot : node.BootRing) (h : Remembers node store position)
    (ha : Appends store store' event) : Remembers node store' position ∧
      node.wholeText store <+: node.wholeText store' := by
  obtain ⟨new, hnew⟩ := ha.boot
  have hinside : node.memoIndex 0 ≤ (store.tiers .boot).entries.length := by
    have := h.readAt.inside
    unfold AstraEventsNode.Inside at this
    rwa [if_pos hboot] at this
  have hrecords : node.records store' = node.records store ++ new := by
    unfold AstraEventsNode.records
    rw [if_pos hboot, if_pos hboot, hnew]
  refine ⟨⟨⟨?_, ?_, ?_⟩, h.le, h.fresh⟩, ?_⟩
  · unfold AstraEventsNode.Cut AstraEventsNode.records AstraEventsNode.recordsBefore
      AstraEventsNode.recordsFrom
    rw [if_pos hboot, if_pos hboot, if_pos hboot, take_append_drop]
  · unfold AstraEventsNode.Inside
    rw [if_pos hboot, hnew, length_append]
    exact hinside.trans (Nat.le_add_right _ _)
  · rw [textOf_catalog ha.catalog]
    have hplace := h.readAt.place
    unfold AstraEventsNode.recordsBefore at hplace ⊢
    rw [if_pos hboot] at hplace ⊢
    rw [hnew, take_append_of_le_length hinside]
    exact hplace
  · unfold AstraEventsNode.wholeText
    rw [hrecords, textOf_catalog ha.catalog, textOf_append]
    exact prefix_append _ _

/-! ## Runs -/

/-- An open node with what its reads have given; the next one is at the offset behind that. -/
structure EventsRun where
  backend : AstraEventsBackend
  node : AstraEventsNode
  output : List UInt8

inductive EventsAction
  | append (event : AstraEventDrained)
  | read (length : ℕ)

namespace EventsRun

variable (s : EventsRun)

def step : EventsAction → EventsRun
  | .append event =>
    { s with backend := { s.backend with store := astraEventStoreAppend s.backend.store event } }
  | .read length =>
    let answer := eventsRead s.backend s.node s.output.length length
    { s with node := answer.2.2, output := s.output ++ answer.2.1 }

/-- A node that reads the merged rings gets events in the order of their sequences, and none of the
records that it has counted is dropped; a read stops before the offset `2 ^ 32`. -/
def Safe : EventsAction → Prop
  | .append event => event.level ≠ astraEventLevelDebug → ¬s.node.BootRing →
    (∀ record ∈ s.backend.store.merged, sequenceOf record < event.sequence.toNat) ∧
      s.node.KeepsRead s.backend.store event s.output.length
  | .read length => ∀ store ∈ s.backend.storeOf s.node,
    min (s.output.length + length) (s.node.wholeText store).length < 2 ^ 32

instance : (action : EventsAction) → Decidable (s.Safe action)
  | .append _ => inferInstanceAs (Decidable (_ → _ → _ ∧ _))
  | .read _ => inferInstanceAs (Decidable (∀ store ∈ s.backend.storeOf s.node, _))

def play : EventsRun → List EventsAction → EventsRun
  | s, [] => s
  | s, action :: actions => (s.step action).play actions

def AllSafe : EventsRun → List EventsAction → Prop
  | _, [] => True
  | s, action :: actions => s.Safe action ∧ (s.step action).AllSafe actions

instance decidableAllSafe : ∀ (s : EventsRun) (actions : List EventsAction),
    Decidable (s.AllSafe actions)
  | _, [] => .isTrue trivial
  | s, action :: actions =>
    have := decidableAllSafe (s.step action) actions
    inferInstanceAs (Decidable (_ ∧ _))

end EventsRun

variable {s : EventsRun} {action : EventsAction} {length : ℕ}

structure EventsRunSound (s : EventsRun) : Prop where
  kind : s.node.kind = .merged ∨ s.node.kind = .earliest
  rings : RingsSound s.backend.store
  reads : ∃ store, s.backend.storeOf s.node = some store ∧ s.node.Ordered store ∧
    Remembers s.node store s.output.length ∧ s.output <+: s.node.wholeText store

theorem read_output {text : List UInt8} (h : output <+: text) (length : ℕ) :
    output ++ (text.drop output.length).take length <+: text ∧
      (output ++ (text.drop output.length).take length).length =
        min (output.length + length) text.length := by
  obtain ⟨behind, rfl⟩ := h
  rw [drop_left]
  refine ⟨(prefix_append_right_inj _).2 (List.take_prefix _ _), ?_⟩
  simp only [length_append, length_take]
  omega

theorem EventsRunSound.read (h : EventsRunSound s) (hsafe : s.Safe (.read length)) :
    EventsRunSound (s.step (.read length)) ∧ ∀ store, s.backend.storeOf s.node = some store →
      (eventsRead s.backend s.node s.output.length length).1 = .ok ∧
        (eventsRead s.backend s.node s.output.length length).2.1 =
          ((s.node.wholeText store).drop s.output.length).take length := by
  obtain ⟨store, hstore, hs, hremembers, houtput⟩ := h.reads
  obtain ⟨hstarts, hlength⟩ := read_output houtput length
  have hsmall := hsafe store hstore
  rw [← hlength, length_append] at hsmall
  obtain ⟨memoOffset, memoIndex, hread, hnew⟩ :=
    eventsRead_spec h.kind hstore hs hremembers hsmall
  refine ⟨⟨?_, h.rings, ⟨store, ?_, ?_, ?_, ?_⟩⟩, fun store' hstore' => ?_⟩
  · dsimp only [EventsRun.step]
    rw [hread]
    exact h.kind
  · dsimp only [EventsRun.step]
    rw [hread]
    exact hstore
  · dsimp only [EventsRun.step]
    rw [hread]
    exact hs
  · dsimp only [EventsRun.step]
    rw [hread, length_append]
    exact hnew
  · dsimp only [EventsRun.step]
    rw [hread]
    exact hstarts
  · cases hstore.symm.trans hstore'
    rw [hread]
    exact ⟨rfl, rfl⟩

theorem EventsRunSound.append (h : EventsRunSound s) {event : AstraEventDrained}
    (hsafe : s.Safe (.append event)) : EventsRunSound (s.step (.append event)) := by
  obtain ⟨store, hstore, hs, hremembers, houtput⟩ := h.reads
  by_cases hdebug : event.level = astraEventLevelDebug
  · -- An event that is only counted.
    have hcounted : astraEventStoreAppend s.backend.store event =
        { s.backend.store with droppedDebug := s.backend.store.droppedDebug + 1 } := by
      unfold astraEventStoreAppend
      rw [if_pos hdebug]
    dsimp only [EventsRun.step]
    rw [hcounted]
    refine ⟨h.kind, h.rings, ?_⟩
    by_cases hprevious : s.node.previousBoot
    · refine ⟨store, ?_, hs, hremembers, houtput⟩
      simpa [AstraEventsBackend.storeOf, hprevious] using hstore
    · obtain rfl : s.backend.store = store := by
        simpa [AstraEventsBackend.storeOf, hprevious] using hstore
      refine ⟨_, by simp [AstraEventsBackend.storeOf, hprevious]; rfl, ?_⟩
      exact ⟨fun hboot => ⟨(hs hboot).tiers, (hs hboot).distinct⟩, ⟨⟨hremembers.readAt.cut,
        hremembers.readAt.inside, hremembers.readAt.place⟩, hremembers.le, hremembers.fresh⟩, houtput⟩
  have ha := append_spec h.rings hdebug
  dsimp only [EventsRun.step]
  refine ⟨h.kind, ha.rings, ?_⟩
  by_cases hprevious : s.node.previousBoot
  · -- The records of the previous boot.
    refine ⟨store, ?_, hs, hremembers, houtput⟩
    simpa [AstraEventsBackend.storeOf, hprevious] using hstore
  obtain rfl : s.backend.store = store := by
    simpa [AstraEventsBackend.storeOf, hprevious] using hstore
  refine ⟨astraEventStoreAppend s.backend.store event, by simp [AstraEventsBackend.storeOf, hprevious],
    ?_⟩
  by_cases hboot : s.node.BootRing
  · obtain ⟨hkept, hstarts⟩ := append_keeps_boot hboot hremembers ha
    exact ⟨fun hno => (hno hboot).elim, hkept, houtput.trans hstarts⟩
  · obtain ⟨hnew, hkeeps⟩ := hsafe hdebug hboot
    obtain ⟨hs', hkept, hstarts⟩ := append_keeps hboot (hs hboot) hremembers ha hkeeps hnew
    exact ⟨fun _ => hs', hkept, hstarts _ rfl houtput⟩

theorem EventsRunSound.play : ∀ {actions : List EventsAction} {s : EventsRun}, EventsRunSound s →
    s.AllSafe actions → EventsRunSound (s.play actions)
  | [], _, h, _ => h
  | .append _ :: _, _, h, hsafe => (h.append hsafe.1).play hsafe.2
  | .read _ :: _, _, h, hsafe => (h.read hsafe.1).1.play hsafe.2

theorem startRing_sound {capacity : ℕ} (h : capacity ≠ 0) (records : ℕ → AstraEventStored) :
    EventRingSound (.start records capacity) :=
  ⟨Nat.pos_of_ne_zero h, Nat.zero_le _, Nat.pos_of_ne_zero h⟩

theorem storeInit_sound (h : astraEventStoreInit records count catalog = some store) :
    RingsSound store ∧ InSequence store := by
  unfold astraEventStoreInit at h
  dsimp only at h
  split_ifs at h with hzero
  cases h
  push Not at hzero
  obtain ⟨hpresented, hrecord, hdetail, hboot⟩ := hzero
  refine ⟨fun tier => ?_, fun tier => ?_, List.Pairwise.nil⟩
  · cases tier with
    | presented => exact startRing_sound hpresented _
    | record => exact startRing_sound hrecord _
    | detail => exact startRing_sound hdetail _
    | boot => exact startRing_sound hboot _
  · have hcases : tier = 0 ∨ tier = 1 ∨ tier = 2 := by simpa using mem_mergedTiers tier
    rcases hcases with rfl | rfl | rfl <;> exact List.Pairwise.nil

theorem openedNode_sound {previous : Option AstraEventStore}
    {logRead : Option (ℕ → ℕ → ℕ → Option (List UInt8))}
    (hinit : astraEventStoreInit records count catalog = some store)
    (hkind : node.kind = .merged ∨ node.kind = .earliest)
    (hfresh : node.memoOffset = 0 ∧ node.memoIndex = 0)
    (hprevious : node.previousBoot = true → previous.isSome) :
    EventsRunSound ⟨⟨store, previous, logRead⟩, node, []⟩ := by
  obtain ⟨hrings, hs⟩ := storeInit_sound hinit
  have hreads : ∀ current, node.Ordered current →
      Remembers node current 0 ∧ [] <+: node.wholeText current := fun current h =>
    ⟨remembers_fresh h hfresh.1 hfresh.2 0, nil_prefix⟩
  refine ⟨hkind, hrings, ?_⟩
  by_cases hboot : node.previousBoot = true
  · obtain ⟨old, hold⟩ := Option.isSome_iff_exists.1 (hprevious hboot)
    have hordered : node.Ordered old := fun hno => (hno (.inl hboot)).elim
    exact ⟨old, by simp [AstraEventsBackend.storeOf, hboot, hold], hordered, hreads old hordered⟩
  · have hordered : node.Ordered store := fun _ => hs
    exact ⟨store, by simp [AstraEventsBackend.storeOf, hboot], hordered, hreads store hordered⟩

theorem allSafe_append : ∀ {actions rest : List EventsAction} {s : EventsRun},
    s.AllSafe (actions ++ rest) ↔ s.AllSafe actions ∧ (s.play actions).AllSafe rest
  | [], _, _ => ⟨fun h => ⟨trivial, h⟩, fun h => h.2⟩
  | action :: actions, rest, s => by
    simp only [cons_append, EventsRun.AllSafe, EventsRun.play, allSafe_append, and_assoc]

theorem eventsRead_node (b : AstraEventsBackend) (node : AstraEventsNode) (offset length : ℕ) :
    ∃ memoOffset memoIndex, (eventsRead b node offset length).2.2 =
      { node with memoOffset := memoOffset, memoIndex := memoIndex } := by
  unfold eventsRead
  split_ifs
  · exact ⟨_, _, rfl⟩
  · split <;> exact ⟨_, _, rfl⟩
  · split <;> exact ⟨_, _, rfl⟩

theorem play_node : ∀ (actions : List EventsAction) (s : EventsRun), ∃ memoOffset memoIndex,
    (s.play actions).node = { s.node with memoOffset := memoOffset, memoIndex := memoIndex }
  | [], _ => ⟨_, _, rfl⟩
  | .append _ :: actions, s => play_node actions (s.step _)
  | .read length :: actions, s => by
    obtain ⟨_, _, hread⟩ := eventsRead_node s.backend s.node s.output.length length
    obtain ⟨memoOffset, memoIndex, hrest⟩ := play_node actions (s.step (.read length))
    refine ⟨memoOffset, memoIndex, hrest.trans ?_⟩
    dsimp only [EventsRun.step]
    rw [hread]

/-- What the reads of a node have given is the start of the whole text, and the next read gives what
the text has behind that. -/
theorem events_read_in_pieces {records : ℕ → AstraEventStored} {count : ℕ}
    {catalog : Option AstraEventCatalog} {previous : Option AstraEventStore}
    {logRead : Option (ℕ → ℕ → ℕ → Option (List UInt8))} {actions : List EventsAction}
    (hinit : astraEventStoreInit records count catalog = some store)
    (hkind : node.kind = .merged ∨ node.kind = .earliest)
    (hfresh : node.memoOffset = 0 ∧ node.memoIndex = 0)
    (hprevious : node.previousBoot = true → previous.isSome)
    (hsafe : EventsRun.AllSafe ⟨⟨store, previous, logRead⟩, node, []⟩ (actions ++ [.read length])) :
    let s := EventsRun.play ⟨⟨store, previous, logRead⟩, node, []⟩ actions
    ∃ current, s.backend.storeOf node = some current ∧ s.output <+: node.wholeText current ∧
      (eventsRead s.backend s.node s.output.length length).1 = .ok ∧
      (eventsRead s.backend s.node s.output.length length).2.1 =
        ((node.wholeText current).drop s.output.length).take length := by
  intro s
  obtain ⟨hactions, hlast⟩ := allSafe_append.1 hsafe
  have hsound : EventsRunSound s := (openedNode_sound hinit hkind hfresh hprevious).play hactions
  obtain ⟨current, hcurrent, -, -, houtput⟩ := hsound.reads
  have hread := (hsound.read hlast.1).2 current hcurrent
  obtain ⟨memoOffset, memoIndex, hnode⟩ :=
    play_node actions ⟨⟨store, previous, logRead⟩, node, []⟩
  change s.node = _ at hnode
  have hwhole : s.node.wholeText current = node.wholeText current := by
    rw [hnode]
    rfl
  have hstoreOf : s.backend.storeOf s.node = s.backend.storeOf node := by
    rw [hnode]
    rfl
  rw [hwhole] at houtput hread
  exact ⟨current, hstoreOf ▸ hcurrent, houtput, hread⟩

/-! ## A store of eight records -/

/-- An event of the level `info`. -/
def infoEvent (sequence : BitVec 32) : AstraEventDrained :=
  ⟨sequence, 0, 0, 1, 0, 0, 0, 1, 0, []⟩

def infoLine (sequence : BitVec 32) : List UInt8 :=
  renderLine none (storedEvent (infoEvent sequence)) eventsLineMax

/-- One record for what was shown and for the boot, three for each of the others. -/
def smallStore : AstraEventStore :=
  (astraEventStoreInit (fun _ => storedEvent (infoEvent 0)) 8 none).get rfl

/-- Every record, and nothing of it read. -/
def wholeLog : AstraEventsNode := ⟨.merged, 0, astraEventSubsystemMax, false, 0, 0, false, 0, 0⟩

def smallRun : EventsRun := ⟨⟨smallStore, none, none⟩, wholeLog, []⟩

theorem events_read_in_pieces_small :
    let s := smallRun.play [.append (infoEvent 1), .read 7, .append (infoEvent 2)]
    ∃ current, s.backend.storeOf wholeLog = some current ∧ s.output <+: wholeLog.wholeText current ∧
      (eventsRead s.backend s.node s.output.length 100).1 = .ok ∧
      (eventsRead s.backend s.node s.output.length 100).2.1 =
        ((wholeLog.wholeText current).drop s.output.length).take 100 := by
  refine events_read_in_pieces (Option.some_get _).symm (.inl rfl) ⟨rfl, rfl⟩ nofun ?_
  show smallRun.AllSafe _
  decide +kernel

/-- The fourth record drops the first one, which the node has counted: the second one is skipped. -/
theorem skipped_behind_dropped :
    let s := smallRun.play [.append (infoEvent 1), .append (infoEvent 2), .append (infoEvent 3),
      .read (infoLine 1).length, .append (infoEvent 4), .read 1000]
    s.output = infoLine 1 ++ infoLine 3 ++ infoLine 4 ∧
      wholeLog.wholeText s.backend.store = infoLine 2 ++ infoLine 3 ++ infoLine 4 := by
  decide +kernel

end Astra
