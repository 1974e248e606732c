import AstraKernel.Proofs.Normalise
import AstraKernel.Vfs.Assign

/-!
# The assign table is an ordered multimap

A binding is put at the end of the entries, a removal filters, and a lookup counts through the
entries of the name. Every entry can be bound again as it stands (`Rebindable`), and that of a
volume is the first of its name (`AssignSound`): so a clone replays them.
-/

namespace Astra

open Function List

/-- The bindings in the order in which they are tried. -/
def AstraAssignTable.members (table : AstraAssignTable) : List AstraAssign :=
  listed table.entries table.count

@[simp] theorem members_init : astraAssignTableInit.members = [] := rfl

theorem members_push (table : AstraAssignTable) (entry : AstraAssign) :
    (table.push entry).members = table.members ++ [entry] :=
  listed_update entry

theorem memberCanonical_eq (table : AstraAssignTable) (name : CString) (member : ℕ) :
    memberCanonical table name member =
      (table.members.filter fun entry => entry.name = name)[member]? := by
  unfold memberCanonical
  rw [nthWhere_eq _ _ _ _ (Nat.zero_le _), Nat.sub_zero]
  simp only [Nat.zero_add]
  rfl

/-! ## Names -/

theorem upper_nameCharacter (c : UInt8) (h : nameCharacter c = true) :
    astraAsciiUpper c = c ∧ c ≠ 0 := by
  simp only [nameCharacter, decide_eq_true_eq, Bool.decide_or, Bool.or_eq_true, Bool.decide_and,
    Bool.and_eq_true, UInt8.le_iff_toNat_le, ← UInt8.toNat_inj, UInt8.reduceToNat] at h
  refine ⟨if_neg fun hl => ?_, fun h0 => ?_⟩
  · have := UInt8.le_iff_toNat_le.1 hl.1
    simp only [UInt8.reduceToNat] at this
    omega
  · subst h0
    simp at h

variable {table table' : AstraAssignTable} {name : CString} {before : List AstraAssign}
  {entry : Option AstraAssign} {given : Option CString} {able : Prop} {handle : UInt32}

theorem canonical_self (h : canonical given = some name) : canonical (some name) = some name := by
  cases given with
  | none => cases h
  | some given =>
    unfold canonical at h
    dsimp only at h
    split_ifs at h with hn hl ha
    cases h
    rw [all_eq_true] at ha
    have h0 : (0 : UInt8) ∉ given.bytes.map astraAsciiUpper := fun hz =>
      (upper_nameCharacter 0 (ha 0 hz)).2 rfl
    have hself : (given.bytes.map astraAsciiUpper).map astraAsciiUpper =
        given.bytes.map astraAsciiUpper := by
      conv_rhs => rw [← map_id (given.bytes.map astraAsciiUpper)]
      exact map_congr_left fun c hc => (upper_nameCharacter c (ha c hc)).1
    unfold canonical
    dsimp only
    rw [CString.bytes_ofBytes h0, hself, if_neg (by simpa using hn),
      if_neg (by simpa using hl), if_pos (by rwa [all_eq_true])]

theorem lookup_eq_none (h : canonical given = some name) :
    astraAssignLookup table given = none ↔ ∀ entry ∈ table.members, entry.name ≠ name := by
  unfold astraAssignLookup astraAssignMember
  rw [h]
  dsimp only
  rw [memberCanonical_eq, ← List.head?_eq_getElem?, List.head?_eq_none_iff, filter_eq_nil_iff]
  simp

/-! ## What the operations do to the list -/

theorem removeMembers_members (table : AstraAssignTable) (gone : AstraAssign → Bool) :
    (removeMembers table gone).2.members = table.members.filter fun entry => !gone entry := by
  have := listed_compact gone table.count 0 0 table.entries
  simp only [Nat.zero_add, listed_zero, nil_append] at this
  exact this

theorem removeMembers_count (table : AstraAssignTable) (gone : AstraAssign → Bool) :
    (removeMembers table gone).2.count ≤ table.count ∧
      ((∃ entry ∈ table.members, gone entry = true) →
        (removeMembers table gone).2.count < table.count) := by
  have hlen : (removeMembers table gone).2.count =
      (table.members.filter fun entry => !gone entry).length := by
    rw [← removeMembers_members]
    exact length_listed.symm
  have htable : table.count = table.members.length := length_listed.symm
  rw [hlen, htable]
  refine ⟨length_filter_le .., ?_⟩
  rintro ⟨entry, hm, hg⟩
  exact length_filter_lt_length_iff_exists.2 ⟨entry, hm, by simp [hg]⟩

theorem removeMembers_status (table : AstraAssignTable) (gone : AstraAssign → Bool)
    (h : (removeMembers table gone).1 ≠ .ok) :
    (removeMembers table gone).2.members = table.members := by
  have hc := compact_count gone table.count 0 0 table.entries
  have hr : (compact gone table.count 0 0 table.entries).2.2 = 0 := by
    by_contra hr
    exact h (if_pos hr)
  rw [hr] at hc
  have hlen : (table.members.filter fun entry => !gone entry).length = table.members.length := by
    rw [← removeMembers_members]
    exact length_listed.trans (hc.trans ((Nat.zero_add _).trans length_listed.symm))
  rw [removeMembers_members]
  exact filter_eq_self.2 (length_filter_eq_length_iff.1 hlen)

/-- What the root of a binding is kept as, where it may be one. -/
def keptRoot (root : CString) : Option CString :=
  match astraPathNormalise root astraVfsPathMax with
  | .ok text => if text.length ≥ astraVfsPathMax - 1 then none else some (.ofBytes text)
  | .error _ => none

/-- The entry that a binding makes, where its arguments may be bound. -/
def boundEntry (name : Option CString) (handle rights : UInt32) (root : Option CString) :
    Option AstraAssign :=
  match root, canonical name with
  | some root, some name =>
    if handle = 0 ∨ rights = 0 then none
    else (keptRoot root).map fun root => ⟨name, root, handle, rights, ⟨0, 0, 0⟩, 0⟩
  | _, _ => none

/-- The entry that the binding of a volume makes. -/
def volumeEntry (name : Option CString) (reference : AstraVolumeReference)
    (broker rights : UInt32) : Option AstraAssign :=
  if broker = 0 ∨ reference.epoch = 0 ∨ reference.id = 0 ∨ reference.generation = 0 ∨
      rights &&& astraRightRead = 0 ∨ rights &&& ~~~(astraRightRead ||| astraRightWrite) ≠ 0 then
    none
  else (canonical name).map fun name => ⟨name, .empty, 0, rights, reference, broker⟩

theorem canonicalRoot_cases (heap : AssignHeap) (root : CString) :
    (∃ kept, canonicalRoot heap root = .ok kept ∧ keptRoot root = some kept) ∨
      ∃ status, canonicalRoot heap root = .error status ∧ status ≠ .ok ∧
        (keptRoot root ≠ none → status = .limit) := by
  unfold canonicalRoot keptRoot
  by_cases hp : heap.path = false
  · exact .inr ⟨_, if_pos hp, by simp, fun _ => rfl⟩
  rw [if_neg hp]
  by_cases hm : (astraVfsPathMeasure (some root)).1 = .ok
  · rw [if_neg (not_not.2 hm)]
    rcases astraPathNormalise root astraVfsPathMax with status | text
    · refine .inr ⟨_, rfl, ?_, fun h => absurd rfl h⟩
      split_ifs with hs <;> simp [hs]
    · dsimp only
      by_cases hl : text.length ≥ astraVfsPathMax - 1
      · exact .inr ⟨_, if_pos hl, by simp, fun h => absurd (if_pos hl) h⟩
      · exact .inl ⟨_, if_neg hl, if_neg hl⟩
  · rw [if_pos hm]
    refine .inr ⟨_, rfl, hm, fun h => absurd ?_ h⟩
    unfold astraPathNormalise
    rw [if_pos hm]

theorem assignReserve_cases (heap : AssignHeap) (table : AstraAssignTable) (minimum : ℕ) :
    (assignReserve heap table minimum).2.entries = table.entries ∧
      (assignReserve heap table minimum).2.count = table.count ∧
      table.capacity ≤ (assignReserve heap table minimum).2.capacity ∧
      ((assignReserve heap table minimum).1 = .ok →
        minimum ≤ (assignReserve heap table minimum).2.capacity) := by
  unfold assignReserve
  split
  · rename_i hc
    exact ⟨rfl, rfl, le_rfl, fun _ => hc⟩
  rcases hd : doubleTo (assignUint32Max / 2) 33
      (if table.capacity = 0 then 8 else table.capacity) minimum with _ | capacity
  · exact ⟨rfl, rfl, le_rfl, fun h => by cases h⟩
  · have hge := doubleTo_ge hd
    dsimp only
    split_ifs
    · exact ⟨rfl, rfl, le_rfl, fun h => by cases h⟩
    · exact ⟨rfl, rfl, by dsimp only; omega, fun _ => hge⟩
    · exact ⟨rfl, rfl, le_rfl, fun h => by cases h⟩

theorem reserveNext_cases (heap : AssignHeap) (table : AstraAssignTable) :
    (reserveNext heap table).2.members = table.members ∧
      (reserveNext heap table).2.count = table.count ∧
      table.capacity ≤ (reserveNext heap table).2.capacity ∧
      ((reserveNext heap table).1 = .ok →
        (reserveNext heap table).2.count + 1 ≤ (reserveNext heap table).2.capacity) := by
  unfold reserveNext
  split_ifs
  · exact ⟨rfl, rfl, le_rfl, fun h => by cases h⟩
  · obtain ⟨he, hc, hle, hok⟩ := assignReserve_cases heap table (table.count + 1)
    refine ⟨?_, hc, hle, fun h => by rw [hc]; exact hok h⟩
    unfold AstraAssignTable.members
    rw [he, hc]

/-- The operation puts the entry behind `before`, or it fails and leaves the list as it was; it
never uses more of the array than there is. With `able`, only memory can be short. -/
structure Adds (table : AstraAssignTable) (before : List AstraAssign) (entry : Option AstraAssign)
    (able : Prop) (result : AstraVfsStatus × AstraAssignTable) : Prop where
  ok : result.1 = .ok → ∃ e, entry = some e ∧ result.2.members = before ++ [e]
  error : result.1 ≠ .ok → result.2.members = table.members
  room : table.count ≤ table.capacity → result.2.count ≤ result.2.capacity
  limit : able → entry ≠ none → result.1 = .ok ∨ result.1 = .limit

theorem Adds.refused {status : AstraVfsStatus} (h : status ≠ .ok)
    (hl : able → entry ≠ none → status = .limit) : Adds table before entry able (status, table) :=
  ⟨fun he => absurd he h, fun _ => rfl, id, fun ha he => .inr (hl ha he)⟩

theorem Adds.grown (hm : table'.members = table.members)
    (hc : table'.count = table.count) (hle : table.capacity ≤ table'.capacity) :
    Adds table before entry able (.limit, table') :=
  ⟨nofun, fun _ => hm, fun h => (hc.trans_le h).trans hle, fun _ _ => .inr rfl⟩

theorem Adds.pushed {entry : AstraAssign} (hm : table'.members = before)
    (hr : table.count ≤ table.capacity → table'.count + 1 ≤ table'.capacity) :
    Adds table before (some entry) able (.ok, table'.push entry) :=
  ⟨fun _ => ⟨entry, rfl, by rw [members_push, hm]⟩, fun h => absurd rfl h, hr, fun _ _ => .inl rfl⟩

theorem boundEntry_eq {rights : UInt32}
    {root : CString} (hn : canonical given = some name) (hz : ¬(handle = 0 ∨ rights = 0)) :
    boundEntry given handle rights (some root) =
      (keptRoot root).map fun root => ⟨name, root, handle, rights, ⟨0, 0, 0⟩, 0⟩ := by
  unfold boundEntry
  rw [hn]
  exact if_neg hz

theorem unbind_capacity (table : AstraAssignTable) (name : Option CString) :
    (astraAssignUnbind table name).2.capacity = table.capacity := by
  unfold astraAssignUnbind
  rcases canonical name with _ | cname <;> rfl

section

variable (heap : AssignHeap)
include heap

theorem bind_adds (table : AstraAssignTable) (name : Option CString)
    (handle rights : UInt32) (root : Option CString) :
    Adds table (table.members.filter fun entry => some entry.name ≠ canonical name)
      (boundEntry name handle rights root) True
      (astraAssignBind heap table name handle rights root) := by
  unfold astraAssignBind
  rcases root with _ | root
  · exact .refused (by simp) fun _ h => absurd rfl h
  rcases hn : canonical name with _ | cname
  · exact .refused (by simp) fun _ h => absurd (by unfold boundEntry; rw [hn]) h
  dsimp only
  split
  · rename_i hz
    exact .refused (by simp) fun _ h => absurd (by unfold boundEntry; rw [hn]; exact if_pos hz) h
  rename_i hz
  rw [boundEntry_eq hn hz]
  rcases canonicalRoot_cases heap root with ⟨kept, hr, hk⟩ | ⟨status, hr, hs, hk⟩ <;> rw [hr]
  · dsimp only
    rw [hk, Option.map_some]
    have hcn := canonical_self hn
    -- the room: an entry of the name is about to go, or another has been reserved
    have hroom : ∀ {t : AstraVfsStatus × AstraAssignTable},
        t = (if astraAssignLookup table (some cname) = none then reserveNext heap table
          else (.ok, table)) →
        t.2.members = table.members ∧ t.2.count = table.count ∧ table.capacity ≤ t.2.capacity ∧
          (t.1 = .ok → table.count ≤ table.capacity →
            (astraAssignUnbind t.2 (some cname)).2.count + 1 ≤
              (astraAssignUnbind t.2 (some cname)).2.capacity) := by
      rintro t rfl
      rw [unbind_capacity]
      split
      · obtain ⟨hm, hc, hle, hok⟩ := reserveNext_cases heap table
        refine ⟨hm, hc, hle, fun h _ => ?_⟩
        have := (removeMembers_count (reserveNext heap table).2
          fun entry => entry.name = cname).1
        have := hok h
        unfold astraAssignUnbind
        rw [hcn]
        dsimp only
        omega
      · rename_i hl
        refine ⟨rfl, rfl, le_rfl, fun _ h => ?_⟩
        rw [lookup_eq_none hcn] at hl
        push Not at hl
        obtain ⟨entry, hm, he⟩ := hl
        have := (removeMembers_count table fun entry => entry.name = cname).2
          ⟨entry, hm, by simpa using he⟩
        unfold astraAssignUnbind
        rw [hcn]
        dsimp only
        omega
    obtain ⟨hm, hc, hle, hok⟩ := hroom rfl
    generalize (if astraAssignLookup table (some cname) = none then reserveNext heap table
      else (.ok, table)) = t at hm hc hle hok
    obtain ⟨status, t⟩ := t
    by_cases hst : status = .ok
    · rw [if_neg (not_not.2 hst)]
      split
      · exact .grown hm hc hle
      · refine .pushed ?_ (hok hst)
        unfold astraAssignUnbind
        rw [hcn]
        dsimp only
        rw [removeMembers_members, hm]
        simp
    · rw [if_pos hst]
      exact .grown hm hc hle
  · exact .refused hs fun _ h => hk fun h0 => h (by rw [h0]; rfl)

theorem reserveNext_adds (table : AstraAssignTable) (entry : AstraAssign) (able : Prop) :
    Adds table table.members (some entry) able
      (if (reserveNext heap table).1 ≠ .ok then (.limit, (reserveNext heap table).2)
        else if heap.root = false then (.limit, (reserveNext heap table).2)
        else (.ok, (reserveNext heap table).2.push entry)) := by
  obtain ⟨hm, hc, hle, hok⟩ := reserveNext_cases heap table
  by_cases hst : (reserveNext heap table).1 = .ok
  · rw [if_neg (not_not.2 hst)]
    split
    · exact .grown hm hc hle
    · exact .pushed hm fun _ => hok hst
  · rw [if_pos hst]
    exact .grown hm hc hle

theorem join_adds (table : AstraAssignTable) (name : Option CString)
    (handle rights : UInt32) (root : Option CString) :
    Adds table table.members (boundEntry name handle rights root)
      (astraAssignLookup table name ≠ none)
      (astraAssignJoin heap table name handle rights root) := by
  unfold astraAssignJoin
  rcases root with _ | root
  · exact .refused (by simp) fun _ h => absurd rfl h
  rcases hn : canonical name with _ | cname
  · exact .refused (by simp) fun _ h => absurd (by unfold boundEntry; rw [hn]) h
  dsimp only
  split
  · rename_i hz
    exact .refused (by simp) fun _ h => absurd (by unfold boundEntry; rw [hn]; exact if_pos hz) h
  rename_i hz
  rw [boundEntry_eq hn hz]
  rcases canonicalRoot_cases heap root with ⟨kept, hr, hk⟩ | ⟨status, hr, hs, hk⟩ <;> rw [hr]
  · dsimp only
    rw [hk, Option.map_some]
    split
    · rename_i hl
      refine .refused (by simp) fun ha _ => absurd ?_ ha
      rw [lookup_eq_none hn, ← lookup_eq_none (canonical_self hn)]
      exact hl
    · exact reserveNext_adds heap table _ _
  · exact .refused hs fun _ h => hk fun h0 => h (by rw [h0]; rfl)

theorem bindVolume_adds (table : AstraAssignTable) (name : Option CString)
    (reference : AstraVolumeReference) (broker rights : UInt32) :
    Adds table table.members (volumeEntry name reference broker rights)
      (astraAssignLookup table name = none)
      (astraAssignBindVolume heap table name reference broker rights) := by
  unfold astraAssignBindVolume volumeEntry
  by_cases hz : broker = 0 ∨ reference.epoch = 0 ∨ reference.id = 0 ∨ reference.generation = 0 ∨
      rights &&& astraRightRead = 0 ∨ rights &&& ~~~(astraRightRead ||| astraRightWrite) ≠ 0
  · rw [if_pos hz, if_pos hz]
    exact .refused (by simp) fun _ h => absurd rfl h
  rw [if_neg hz, if_neg hz]
  rcases hn : canonical name with _ | cname
  · exact .refused (by simp) fun _ h => absurd rfl h
  · dsimp only
    rw [Option.map_some]
    by_cases hl : astraAssignLookup table name = none
    · rw [if_neg (not_not.2 hl)]
      exact reserveNext_adds heap table _ _
    · rw [if_pos hl]
      exact .refused (by simp) fun ha _ => absurd ha hl

end

theorem unbind_members {name : Option CString}
    (h : (astraAssignUnbind table name).1 = .ok) : (astraAssignUnbind table name).2.members =
      table.members.filter fun entry => some entry.name ≠ canonical name := by
  unfold astraAssignUnbind at h ⊢
  rcases hn : canonical name with _ | cname <;> rw [hn] at h
  · cases h
  · dsimp only
    rw [removeMembers_members]
    simp

theorem unbind_error {name : Option CString} (h : (astraAssignUnbind table name).1 ≠ .ok) :
    (astraAssignUnbind table name).2.members = table.members := by
  unfold astraAssignUnbind at h ⊢
  rcases hn : canonical name with _ | cname <;> rw [hn] at h
  exact removeMembers_status table _ h

theorem retire_members (h : (astraVfsAssignRetireHandle table handle).1 = .ok) :
    (astraVfsAssignRetireHandle table handle).2.members =
      table.members.filter fun entry => entry.handle ≠ handle := by
  unfold astraVfsAssignRetireHandle at h ⊢
  split_ifs at h ⊢ with hz
  rw [removeMembers_members]
  simp

theorem retire_error (h : (astraVfsAssignRetireHandle table handle).1 ≠ .ok) :
    (astraVfsAssignRetireHandle table handle).2.members = table.members := by
  unfold astraVfsAssignRetireHandle at h ⊢
  split_ifs at h ⊢ with hz
  · rfl
  · exact removeMembers_status table _ h

end Astra
