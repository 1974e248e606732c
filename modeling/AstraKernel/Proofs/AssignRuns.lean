import AstraKernel.Proofs.Assign

/-!
# Runs of the assign tables

Each table holds what the calls that succeeded have left of its bindings, in their order
(`assign_multimap`); a call that fails leaves all of them, and a clone resolves what its source
does.
-/

namespace Astra

open Function List

variable {table : AstraAssignTable} {entry : AstraAssign}

/-! ## Entries that can be bound again -/

def Rebindable (entry : AstraAssign) : Prop :=
  if entry.volume.id ≠ 0 then
    volumeEntry (some entry.name) entry.volume entry.broker entry.rights = some entry
  else boundEntry (some entry.name) entry.handle entry.rights (some entry.root) = some entry

theorem keptRoot_self {root kept : CString} (h : keptRoot root = some kept) :
    keptRoot kept = some kept := by
  unfold keptRoot at h
  rcases hn : astraPathNormalise root astraVfsPathMax with status | text <;> rw [hn] at h
  · cases h
  dsimp only at h
  split_ifs at h with hl
  cases h
  obtain ⟨hnormal, htext, hlt⟩ := astraPathNormalise_normal hn le_rfl
  have hb := CString.bytes_ofBytes htext.noNul
  have hself := astraPathNormalise_self (by rwa [hb]) (by rwa [hb])
    (show (CString.ofBytes text).bytes.length < astraVfsPathMax by rwa [hb])
  unfold keptRoot
  rw [hself, hb]
  exact if_neg hl

variable {table' : AstraAssignTable} {result : AstraVfsStatus × AstraAssignTable}
  {reference : AstraVolumeReference} {before : List AstraAssign} {added : Option AstraAssign}
  {name : Option CString} {able : Prop} {broker rights : UInt32}

theorem boundEntry_some {handle : UInt32} {root : Option CString}
    (h : boundEntry name handle rights root = some entry) :
    canonical name = some entry.name ∧ entry.volume.id = 0 ∧ Rebindable entry := by
  unfold boundEntry at h
  rcases root with _ | root
  · cases h
  rcases hn : canonical name with _ | cname <;> rw [hn] at h
  · cases h
  split_ifs at h with hz
  obtain ⟨kept, hk, rfl⟩ := Option.map_eq_some_iff.1 h
  refine ⟨rfl, rfl, ?_⟩
  unfold Rebindable
  rw [if_neg (not_not.2 rfl), boundEntry_eq (canonical_self hn) hz, keptRoot_self hk]
  rfl

theorem volumeEntry_some (h : volumeEntry name reference broker rights = some entry) :
    canonical name = some entry.name ∧ Rebindable entry := by
  unfold volumeEntry at h
  split_ifs at h with hz
  obtain ⟨cname, hn, rfl⟩ := Option.map_eq_some_iff.1 h
  refine ⟨hn, ?_⟩
  unfold Rebindable volumeEntry
  push Not at hz
  rw [if_pos hz.2.2.1, if_neg (by simpa using hz), canonical_self hn]
  rfl

/-! ## Sound tables -/

/-- The array is no fuller than it is long, its entries can be bound again, and the entry of a
volume is the first of its name. -/
structure AssignSound (table : AstraAssignTable) : Prop where
  room : table.count ≤ table.capacity
  entries : ∀ entry ∈ table.members, Rebindable entry
  first : table.members.Pairwise fun d e => e.volume.id ≠ 0 → d.name ≠ e.name

theorem assignSound_init : AssignSound astraAssignTableInit :=
  ⟨le_rfl, by simp, by simp⟩

section

variable (h : AssignSound table)
include h

theorem AssignSound.sublist
    (hr : table'.count ≤ table'.capacity) (hs : table'.members.Sublist table.members) :
    AssignSound table' :=
  ⟨hr, fun e he => h.entries e (hs.subset he), h.first.sublist hs⟩

theorem AssignSound.adds
    (ha : Adds table before added able result) (hb : before.Sublist table.members)
    (he : ∀ e, added = some e → result.1 = .ok → Rebindable e ∧
      (e.volume.id ≠ 0 → ∀ d ∈ before, d.name ≠ e.name)) : AssignSound result.2 := by
  by_cases hok : result.1 = .ok
  · obtain ⟨e, hadded, hm⟩ := ha.ok hok
    obtain ⟨hsound, hfirst⟩ := he e hadded hok
    refine ⟨ha.room h.room, ?_, ?_⟩ <;> rw [hm]
    · intro d hd
      rcases mem_append.1 hd with hd | hd
      · exact h.entries d (hb.subset hd)
      · rwa [mem_singleton.1 hd]
    · refine pairwise_append.2 ⟨h.first.sublist hb, pairwise_singleton .., ?_⟩
      intro d hd e' he' hv
      obtain rfl := mem_singleton.1 he'
      exact hfirst hv d hd
  · exact h.sublist (ha.room h.room) (by rw [ha.error hok])

theorem AssignSound.bind (heap : AssignHeap) (name : Option CString)
    (handle rights : UInt32) (root : Option CString) :
    AssignSound (astraAssignBind heap table name handle rights root).2 :=
  h.adds (bind_adds heap table name handle rights root) filter_sublist fun _ he _ =>
    ⟨(boundEntry_some he).2.2, fun hv => absurd (boundEntry_some he).2.1 hv⟩

theorem AssignSound.join (heap : AssignHeap) (name : Option CString)
    (handle rights : UInt32) (root : Option CString) :
    AssignSound (astraAssignJoin heap table name handle rights root).2 :=
  h.adds (join_adds heap table name handle rights root) (List.Sublist.refl _) fun _ he _ =>
    ⟨(boundEntry_some he).2.2, fun hv => absurd (boundEntry_some he).2.1 hv⟩

end

theorem bindVolume_unbound {heap : AssignHeap}
    (h : (astraAssignBindVolume heap table name reference broker rights).1 = .ok) :
    astraAssignLookup table name = none := by
  by_contra hl
  unfold astraAssignBindVolume at h
  split_ifs at h with hz
  rcases hn : canonical name with _ | cname <;> rw [hn] at h
  · cases h
  · cases h

section

variable (h : AssignSound table)
include h

theorem AssignSound.bindVolume (heap : AssignHeap) (name : Option CString)
    (reference : AstraVolumeReference) (broker rights : UInt32) :
    AssignSound (astraAssignBindVolume heap table name reference broker rights).2 :=
  h.adds (bindVolume_adds heap table name reference broker rights) (List.Sublist.refl _)
    fun _ he hok => ⟨(volumeEntry_some he).2, fun _ =>
      (lookup_eq_none (volumeEntry_some he).1).1 (bindVolume_unbound hok)⟩

theorem AssignSound.removed (gone : AstraAssign → Bool) :
    AssignSound (removeMembers table gone).2 :=
  h.sublist ((removeMembers_count table gone).1.trans h.room) (by
    rw [removeMembers_members]
    exact filter_sublist)

theorem AssignSound.unbind (name : Option CString) :
    AssignSound (astraAssignUnbind table name).2 := by
  unfold astraAssignUnbind
  rcases canonical name with _ | cname
  · exact h
  · exact h.removed _

theorem AssignSound.retire (handle : UInt32) :
    AssignSound (astraVfsAssignRetireHandle table handle).2 := by
  unfold astraVfsAssignRetireHandle
  split_ifs
  · exact h
  · exact h.removed _

end

/-! ## Seeding and cloning -/

/-- The entry that a record of the startup table makes, where it makes one. -/
def seedEntry (capability : AstraStartupCapability) : Option AstraAssign :=
  if capability.flags &&& astraCapabilityFlagNamespace = 0 then none
  else match fieldText capability.name astraCapabilityNameMax,
      fieldText capability.root astraCapabilityRootMax with
    | some name, some root =>
      boundEntry (some name) capability.handle (capabilityRights capability.flags) (some root)
    | _, _ => none

theorem Adds.settled (h : Adds table before added able result)
    (ha : able) (hb : before = table.members) (hl : result.1 ≠ .limit) :
    result.2.members = table.members ++ added.toList := by
  by_cases hok : result.1 = .ok
  · obtain ⟨e, rfl, hm⟩ := h.ok hok
    rw [hm, hb, Option.toList_some]
  · have hnone : added = none := by
      by_contra hne
      rcases h.limit ha hne with h | h
      · exact hok h
      · exact hl h
    rw [h.error hok, hnone, Option.toList_none, append_nil]

theorem filter_unbound (h : astraAssignLookup table name = none) :
    (table.members.filter fun e => some e.name ≠ canonical name) = table.members := by
  refine filter_eq_self.2 fun e he => ?_
  rw [decide_eq_true_iff]
  intro hn
  exact (lookup_eq_none hn.symm).1 h e he rfl

theorem seedCapability_cases (h : AssignSound table) (heap : AssignHeap)
    (capability : AstraStartupCapability) :
    AssignSound (seedCapability heap table capability).2 ∧
      ((seedCapability heap table capability).1 ≠ .limit →
        (seedCapability heap table capability).2.members =
          table.members ++ (seedEntry capability).toList) := by
  unfold seedCapability seedEntry
  by_cases hf : capability.flags &&& astraCapabilityFlagNamespace = 0
  · rw [if_pos hf, if_pos hf]
    exact ⟨h, fun _ => (append_nil _).symm⟩
  rw [if_neg hf, if_neg hf]
  rcases fieldText capability.name astraCapabilityNameMax with _ | name
  · exact ⟨h, fun _ => (append_nil _).symm⟩
  rcases fieldText capability.root astraCapabilityRootMax with _ | root
  · exact ⟨h, fun _ => (append_nil _).symm⟩
  dsimp only
  split
  · rename_i hl
    exact ⟨h.bind heap _ _ _ _, (bind_adds heap table _ _ _ _).settled trivial (filter_unbound hl)⟩
  · rename_i hl
    exact ⟨h.join heap _ _ _ _, (join_adds heap table _ _ _ _).settled hl rfl⟩

theorem seedFrom_some {heap : ℕ → AssignHeap} : ∀ {capabilities : List AstraStartupCapability}
    {i : ℕ} {table table' : AstraAssignTable}, AssignSound table →
    seedFrom heap i capabilities table = some table' →
    AssignSound table' ∧ table'.members = table.members ++ capabilities.filterMap seedEntry
  | [], _, table, table', h, hs => by
    cases hs
    exact ⟨h, by simp⟩
  | capability :: rest, i, table, table', h, hs => by
    rw [seedFrom] at hs
    obtain ⟨hsound, hadd⟩ := seedCapability_cases h (heap i) capability
    dsimp only at hs
    split_ifs at hs with hl
    obtain ⟨h', hm⟩ := seedFrom_some hsound hs
    refine ⟨h', ?_⟩
    rw [hm, hadd hl, append_assoc, filterMap_cons]
    cases seedEntry capability <;> rfl

theorem cloneEntry_cases (h : AssignSound table) (heap : AssignHeap) (he : Rebindable entry)
    (hf : entry.volume.id ≠ 0 → ∀ d ∈ table.members, d.name ≠ entry.name) :
    AssignSound (cloneEntry heap table entry).2 ∧
      ((cloneEntry heap table entry).1 = .limit ∨ (cloneEntry heap table entry).1 = .ok ∧
        (cloneEntry heap table entry).2.members = table.members ++ [entry]) := by
  unfold Rebindable at he
  unfold cloneEntry
  by_cases hv : entry.volume.id ≠ 0
  · rw [if_pos hv] at he ⊢
    have ha := bindVolume_adds heap table (some entry.name) entry.volume entry.broker entry.rights
    have hl := (lookup_eq_none (volumeEntry_some he).1).2 (hf hv)
    rw [he] at ha
    refine ⟨h.bindVolume heap _ _ _ _, ?_⟩
    rcases ha.limit hl (by simp) with hok | hlim
    · exact .inr ⟨hok, ha.settled hl rfl (by simp [hok])⟩
    · exact .inl hlim
  · rw [if_neg hv] at he ⊢
    by_cases hl : astraAssignLookup table (some entry.name) = none
    · rw [if_neg (not_not.2 hl)]
      have ha := bind_adds heap table (some entry.name) entry.handle entry.rights (some entry.root)
      rw [he] at ha
      refine ⟨h.bind heap _ _ _ _, ?_⟩
      rcases ha.limit trivial (by simp) with hok | hlim
      · exact .inr ⟨hok, ha.settled trivial (filter_unbound hl) (by simp [hok])⟩
      · exact .inl hlim
    · rw [if_pos hl]
      have ha := join_adds heap table (some entry.name) entry.handle entry.rights (some entry.root)
      rw [he] at ha
      refine ⟨h.join heap _ _ _ _, ?_⟩
      rcases ha.limit hl (by simp) with hok | hlim
      · exact .inr ⟨hok, ha.settled hl rfl (by simp [hok])⟩
      · exact .inl hlim

theorem cloneFrom_cases (heap : ℕ → AssignHeap) : ∀ {entries : List AstraAssign} (i : ℕ)
    {table : AstraAssignTable}, AssignSound table → (∀ entry ∈ entries, Rebindable entry) →
    (table.members ++ entries).Pairwise (fun d e => e.volume.id ≠ 0 → d.name ≠ e.name) →
    cloneFrom heap i entries table = .error .limit ∨
      ∃ table', cloneFrom heap i entries table = .ok table' ∧ AssignSound table' ∧
        table'.members = table.members ++ entries
  | [], _, table, h, _, _ => .inr ⟨table, rfl, h, (append_nil _).symm⟩
  | entry :: rest, i, table, h, he, hp => by
    have hpa := (pairwise_append.1 hp).2.2
    obtain ⟨hsound, hcase⟩ := cloneEntry_cases h (heap i) (he entry mem_cons_self)
      fun hv d hd => hpa d hd entry mem_cons_self hv
    rw [cloneFrom]
    dsimp only
    rcases hcase with hlim | ⟨hok, hm⟩
    · rw [if_pos (by simp [hlim]), hlim]
      exact .inl rfl
    · rw [if_neg (not_not.2 hok)]
      have happ : table.members ++ entry :: rest =
          (cloneEntry (heap i) table entry).2.members ++ rest := by
        rw [hm, append_assoc, singleton_append]
      rw [happ] at hp ⊢
      exact cloneFrom_cases heap (i + 1) hsound (fun e h => he e (mem_cons_of_mem _ h)) hp

theorem clone_cases (target : AstraAssignTable) {source : AstraAssignTable}
    (heap : ℕ → AssignHeap) (h : AssignSound source) :
    astraVfsAssignClone heap target source = (.limit, target) ∨
      ∃ table, astraVfsAssignClone heap target source = (.ok, table) ∧ AssignSound table ∧
        table.members = source.members := by
  unfold astraVfsAssignClone
  rcases cloneFrom_cases heap 0 assignSound_init h.entries h.first with hc | hc
  · exact .inl (by unfold AstraAssignTable.members at hc; rw [hc])
  · obtain ⟨table, hc, hs, hm⟩ := hc
    exact .inr ⟨table, by unfold AstraAssignTable.members at hc; rw [hc], hs, hm⟩

/-! ## Runs -/

/-- A call on one of the tables, with the allocations that succeed in it. -/
inductive AssignCall
  | bind (table : ℕ) (heap : AssignHeap) (name : Option CString) (handle rights : UInt32)
      (root : Option CString)
  | bindVolume (table : ℕ) (heap : AssignHeap) (name : Option CString)
      (reference : AstraVolumeReference) (broker rights : UInt32)
  | join (table : ℕ) (heap : AssignHeap) (name : Option CString) (handle rights : UInt32)
      (root : Option CString)
  | unbind (table : ℕ) (name : Option CString)
  | retireHandle (table : ℕ) (handle : UInt32)
  | seed (table : ℕ) (heap : ℕ → AssignHeap) (capabilities : List AstraStartupCapability)
  | clone (target source : ℕ) (heap : ℕ → AssignHeap)

/-- The table that the call writes. -/
def AssignCall.written : AssignCall → ℕ
  | .bind table .. | .bindVolume table .. | .join table .. | .unbind table _
  | .retireHandle table _ | .seed table .. => table
  | .clone target .. => target

/-- What the call answers and leaves in the table that it writes. -/
def AssignCall.answer (tables : ℕ → AstraAssignTable) : AssignCall → AstraVfsStatus × AstraAssignTable
  | .bind table heap name handle rights root =>
    astraAssignBind heap (tables table) name handle rights root
  | .bindVolume table heap name reference broker rights =>
    astraAssignBindVolume heap (tables table) name reference broker rights
  | .join table heap name handle rights root =>
    astraAssignJoin heap (tables table) name handle rights root
  | .unbind table name => astraAssignUnbind (tables table) name
  | .retireHandle table handle => astraVfsAssignRetireHandle (tables table) handle
  | .seed table heap capabilities => astraAssignSeed heap (tables table) capabilities
  | .clone target source heap => astraVfsAssignClone heap (tables target) (tables source)

def AssignCall.run (tables : ℕ → AstraAssignTable) (call : AssignCall) :
    AstraVfsStatus × (ℕ → AstraAssignTable) :=
  ((call.answer tables).1, update tables call.written (call.answer tables).2)

/-- What a call that succeeds makes of the bindings: an ordered multimap for each table. -/
def AssignCall.effect (bindings : ℕ → List AstraAssign) : AssignCall → List AstraAssign
  | .bind table _ name handle rights root =>
    ((bindings table).filter fun entry => some entry.name ≠ canonical name) ++
      (boundEntry name handle rights root).toList
  | .bindVolume table _ name reference broker rights =>
    bindings table ++ (volumeEntry name reference broker rights).toList
  | .join table _ name handle rights root =>
    bindings table ++ (boundEntry name handle rights root).toList
  | .unbind table name => (bindings table).filter fun entry => some entry.name ≠ canonical name
  | .retireHandle table handle => (bindings table).filter fun entry => entry.handle ≠ handle
  | .seed _ _ capabilities => capabilities.filterMap seedEntry
  | .clone _ source _ => bindings source

/-- The bindings that calls leave, one after the other, of none. -/
def bindingsAfter (calls : List AssignCall) : ℕ → List AstraAssign :=
  calls.foldl (fun bindings call => update bindings call.written (call.effect bindings)) fun _ => []

/-- The tables, and the calls that have succeeded. -/
def assignStep (s : (ℕ → AstraAssignTable) × List AssignCall) (call : AssignCall) :
    (ℕ → AstraAssignTable) × List AssignCall :=
  ((call.run s.1).2, if (call.run s.1).1 = .ok then s.2 ++ [call] else s.2)

def assignRun (calls : List AssignCall) : (ℕ → AstraAssignTable) × List AssignCall :=
  calls.foldl assignStep (fun _ => astraAssignTableInit, [])

theorem Adds.effect (h : Adds table before added able result)
    (hok : result.1 = .ok) : result.2.members = before ++ added.toList := by
  obtain ⟨e, rfl, hm⟩ := h.ok hok
  rw [hm, Option.toList_some]

theorem AssignCall.answer_cases {tables : ℕ → AstraAssignTable} (h : ∀ t, AssignSound (tables t))
    (call : AssignCall) : AssignSound (call.answer tables).2 ∧
      ((call.answer tables).1 = .ok →
        (call.answer tables).2.members = call.effect fun t => (tables t).members) ∧
      ((call.answer tables).1 ≠ .ok →
        (call.answer tables).2.members = (tables call.written).members) := by
  cases call with
  | bind table heap name handle rights root =>
    have ha := bind_adds heap (tables table) name handle rights root
    exact ⟨(h table).bind .., ha.effect, ha.error⟩
  | bindVolume table heap name reference broker rights =>
    have ha := bindVolume_adds heap (tables table) name reference broker rights
    exact ⟨(h table).bindVolume .., ha.effect, ha.error⟩
  | join table heap name handle rights root =>
    have ha := join_adds heap (tables table) name handle rights root
    exact ⟨(h table).join .., ha.effect, ha.error⟩
  | unbind table name => exact ⟨(h table).unbind name, unbind_members, unbind_error⟩
  | retireHandle table handle => exact ⟨(h table).retire handle, retire_members, retire_error⟩
  | seed table heap capabilities =>
    unfold answer astraAssignSeed
    dsimp only
    split_ifs with hc
    · exact ⟨h table, nofun, fun _ => rfl⟩
    rcases hs : seedFrom heap 0 capabilities astraAssignTableInit with _ | replacement
    · exact ⟨h table, nofun, fun _ => rfl⟩
    · obtain ⟨hsound, hm⟩ := seedFrom_some assignSound_init hs
      exact ⟨hsound, fun _ => hm, fun hne => absurd rfl hne⟩
  | clone target source heap =>
    unfold answer
    dsimp only
    rcases clone_cases (tables target) heap (h source) with hc | ⟨table, hc, hs, hm⟩ <;>
      rw [hc]
    · exact ⟨h target, nofun, fun _ => rfl⟩
    · exact ⟨hs, fun _ => hm, fun hne => absurd rfl hne⟩

structure AssignTracked (s : (ℕ → AstraAssignTable) × List AssignCall) : Prop where
  sound : ∀ t, AssignSound (s.1 t)
  members : ∀ t, (s.1 t).members = bindingsAfter s.2 t

theorem AssignTracked.step {s : (ℕ → AstraAssignTable) × List AssignCall} (h : AssignTracked s)
    (call : AssignCall) : AssignTracked (assignStep s call) := by
  obtain ⟨hsound, hok, herror⟩ := call.answer_cases h.sound
  have hmembers : (fun t => (s.1 t).members) = bindingsAfter s.2 := funext h.members
  constructor
  · intro t
    change AssignSound (update s.1 call.written (call.answer s.1).2 t)
    by_cases ht : t = call.written
    · subst ht
      rwa [update_self]
    · rw [update_of_ne ht]
      exact h.sound t
  · intro t
    change (update s.1 call.written (call.answer s.1).2 t).members =
      bindingsAfter (if (call.answer s.1).1 = .ok then s.2 ++ [call] else s.2) t
    split
    · rename_i hst
      rw [bindingsAfter, foldl_append]
      change _ = update (bindingsAfter s.2) call.written (call.effect (bindingsAfter s.2)) t
      by_cases ht : t = call.written
      · subst ht
        rw [update_self, update_self, hok hst, hmembers]
      · rw [update_of_ne ht, update_of_ne ht, h.members t]
    · rename_i hst
      by_cases ht : t = call.written
      · subst ht
        rw [update_self, herror hst, h.members]
      · rw [update_of_ne ht, h.members t]

theorem assignRun_tracked (calls : List AssignCall) : AssignTracked (assignRun calls) := by
  induction calls using List.reverseRecOn with
  | nil => exact ⟨fun _ => assignSound_init, fun _ => rfl⟩
  | append_singleton calls call ih =>
    rw [assignRun, foldl_append]
    exact ih.step call

theorem member_eq (table : AstraAssignTable) (name : Option CString) (i : ℕ) :
    astraAssignMember table name i =
      (table.members.filter fun entry => some entry.name = canonical name)[i]? := by
  unfold astraAssignMember
  rcases hn : canonical name with _ | cname
  · simp
  · dsimp only
    rw [memberCanonical_eq]
    simp only [Option.some.injEq]

theorem resolve_congr {table : AstraAssignTable} (h : table'.members = table.members)
    (path : CString) (rights : UInt32) (member capacity : ℕ) (raw : Bool) :
    assignResolve table' path rights member capacity raw =
      assignResolve table path rights member capacity raw := by
  unfold assignResolve
  simp only [memberCanonical_eq, h]

end Astra
