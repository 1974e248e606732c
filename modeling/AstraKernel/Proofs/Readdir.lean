import AstraKernel.Proofs.Utf8
import AstraKernel.Vfs.Readdir

/-!
# Pages of a directory

A page is accepted exactly when it is the records of entries that may be listed, one behind the
other, and no byte behind them is read (`readdirBatch_page`). Pages are cut between records, so they
add up to the entries (`listFrom_spec`), unless there is a single one and the backend says that
there is no other: its cookie zero is taken for one that does not advance.
-/

namespace Astra

open List

/-! ## Records -/

/-- What a record carries of a node: of the identity the fields that its mask has. -/
def AstraVfsNodeInfo.masked (info : AstraVfsNodeInfo) : AstraVfsNodeInfo :=
  { info with metadata :=
    ⟨info.metadata.valid &&& astraVfsMetaIdentity, 0,
      identityField info.metadata.valid astraVfsMetaVolume info.metadata.volume,
      identityField info.metadata.valid astraVfsMetaInode info.metadata.inode,
      identityField info.metadata.valid astraVfsMetaGeneration info.metadata.generation⟩ }

def AstraVfsDirEntry.masked (entry : AstraVfsDirEntry) : AstraVfsDirEntry :=
  ⟨entry.name, entry.info.masked⟩

/-- A name that an entry may have. -/
structure ListedName (name : List UInt8) : Prop where
  ne_nil : name ≠ []
  short : name.length < astraVfsNameMax
  utf8 : astraUtf8Validate name = true

theorem ListedName.bufferName {name : List UInt8} (h : ListedName name) :
    Astra.bufferName (name ++ [0]) = name := by
  have hshort := h.short
  have hnul := (astraUtf8Validate_text.1 h.utf8).2
  have hzero : ∀ b ∈ name, b ≠ 0 := by
    rintro b hb rfl
    exact hnul hb
  unfold Astra.bufferName
  rw [take_of_length_le (by simpa using hshort), takeWhile_append_of_pos (by simpa using hzero)]
  simp

/-- An entry as the client keeps it. -/
structure ListedEntry (entry : AstraVfsDirEntry) : Prop where
  name : ListedName entry.name
  info : entry.info.masked = entry.info

def recordOf (entry : AstraVfsDirEntry) : List UInt8 := direntRecord entry.info entry.name

variable {payload : List UInt8} {flag : UInt32} {count i : ℕ}

variable (entry : AstraVfsDirEntry) (valid : UInt32) (info : AstraVfsNodeInfo) (name : List UInt8)

theorem mask_flag (h : astraVfsMetaIdentity &&& flag = flag) :
    valid &&& astraVfsMetaIdentity &&& flag = valid &&& flag := by
  rw [UInt32.and_assoc, h]

theorem mask_rest : valid &&& astraVfsMetaIdentity &&& ~~~astraVfsMetaIdentity = 0 := by
  rw [UInt32.and_assoc, show astraVfsMetaIdentity &&& ~~~astraVfsMetaIdentity = 0 from rfl,
    UInt32.and_zero]

theorem identityField_masked (field : UInt64) (h : astraVfsMetaIdentity &&& flag = flag) :
    identityField (valid &&& astraVfsMetaIdentity) flag (identityField valid flag field) =
      identityField valid flag field := by
  unfold identityField
  rw [mask_flag valid h]
  split_ifs <;> rfl

theorem masked_masked : info.masked.masked = info.masked := by
  unfold AstraVfsNodeInfo.masked
  rw [identityField_masked _ _ rfl, identityField_masked _ _ rfl, identityField_masked _ _ rfl,
    mask_flag _ rfl]

theorem direntRecord_masked : direntRecord info.masked name = direntRecord info name := by
  unfold direntRecord AstraVfsNodeInfo.masked
  dsimp only
  rw [identityField_masked _ _ rfl, identityField_masked _ _ rfl, identityField_masked _ _ rfl,
    mask_flag _ rfl]

def direntFields (info : AstraVfsNodeInfo) (name : List UInt8) : List ℕ :=
  [info.kind.toNat, info.mode.toNat, info.nlink.toNat, name.length % 256, 0, info.uid.toNat,
    info.gid.toNat, info.size.toNat, info.mtime.toNat,
    (info.metadata.valid &&& astraVfsMetaIdentity).toNat, 0,
    (identityField info.metadata.valid astraVfsMetaVolume info.metadata.volume).toNat,
    (identityField info.metadata.valid astraVfsMetaInode info.metadata.inode).toNat,
    (identityField info.metadata.valid astraVfsMetaGeneration info.metadata.generation).toNat]

theorem direntRecord_eq :
    direntRecord info name = storeFields direntLayout (direntFields info name) ++ name := rfl

theorem direntFields_fit :
    List.Forall₂ (fun width value => value < 256 ^ width) direntLayout (direntFields info name) := by
  simp only [direntLayout, direntFields, forall₂_cons, forall₂_nil_left_iff]
  exact ⟨info.kind.toNat_lt, info.mode.toNat_lt, info.nlink.toNat_lt, Nat.mod_lt _ (by decide),
    by decide, info.uid.toNat_lt, info.gid.toNat_lt, info.size.toNat_lt, info.mtime.toNat_lt,
    UInt32.toNat_lt _, by decide, UInt64.toNat_lt _, UInt64.toNat_lt _, UInt64.toNat_lt _, trivial⟩

theorem length_header :
    (storeFields direntLayout (direntFields info name)).length = astraVfsDirentHeader :=
  length_storeFields rfl

theorem length_direntRecord :
    (direntRecord info name).length = astraVfsDirentHeader + name.length := by
  rw [direntRecord_eq, length_append, length_header]

theorem identityField_unmasked {valid : UInt32} {field : UInt64} :
    ¬(valid &&& flag = 0 ∧ (identityField valid flag field).toNat ≠ 0) := by
  rintro ⟨h0, hf⟩
  apply hf
  unfold identityField
  rw [if_neg (by simpa using h0)]
  rfl

theorem direntAt_record {entry : AstraVfsDirEntry} (h : ListedEntry entry) (before behind : List UInt8)
    (hc : (before ++ recordOf entry).length ≤ count) :
    direntAt (before ++ recordOf entry ++ behind) count before.length =
      some (.ok (entry, (before ++ recordOf entry).length)) := by
  obtain ⟨name, info⟩ := entry
  obtain ⟨⟨hne, hshort, hutf⟩, hinfo⟩ := h
  dsimp only at hne hshort hutf hinfo
  have hpos : 0 < name.length := length_pos_iff.2 hne
  have hlen : (before ++ recordOf ⟨name, info⟩).length =
      before.length + astraVfsDirentHeader + name.length := by
    rw [length_append, recordOf, length_direntRecord, Nat.add_assoc]
  have hmod : name.length % 256 = name.length := Nat.mod_eq_of_lt hshort
  have hfields := loadFields_store before (name ++ behind) (direntFields_fit info name)
  have hname := loadBytes_append (before ++ storeFields direntLayout (direntFields info name)) name
    behind
  have hpayload : before ++ recordOf ⟨name, info⟩ ++ behind =
      before ++ storeFields direntLayout (direntFields info name) ++ name ++ behind := by
    rw [recordOf, direntRecord_eq, ← append_assoc]
  rw [← append_assoc] at hfields
  rw [length_append, length_header] at hname
  rw [hlen] at hc ⊢
  rw [hpayload]
  generalize before ++ storeFields direntLayout (direntFields info name) ++ name ++ behind = payload
    at hfields hname
  unfold direntAt
  rw [hfields]
  simp only [direntFields, hmod, UInt32.ofNat_toNat, UInt16.ofNat_toNat, UInt64.ofNat_toNat]
  have hidentity : ∀ {flag : UInt32} {field : UInt64}, astraVfsMetaIdentity &&& flag = flag →
      ¬(info.metadata.valid &&& astraVfsMetaIdentity &&& flag = 0 ∧
        (identityField info.metadata.valid flag field).toNat ≠ 0) := by
    intro flag field hflag
    rw [mask_flag _ hflag]
    exact identityField_unmasked
  rw [if_neg (by simp), if_neg, if_neg (by omega), hname]
  · dsimp only
    rw [if_neg (by simp [hutf])]
    change some (Except.ok ((⟨name, info.masked⟩ : AstraVfsDirEntry), _)) = _
    rw [hinfo]
  · rintro (h | h | h | h | h)
    · exact h (mask_rest _)
    · exact h rfl
    · exact hidentity rfl h
    · exact hidentity rfl h
    · exact hidentity rfl h

theorem and_of_and_not {x i : UInt32} (h : x &&& ~~~i = 0) : x &&& i = x := by
  rw [← UInt32.toBitVec_inj] at h ⊢
  ext k hk
  have hbit := congrArg (BitVec.getLsbD · k) h
  simpa [hk] using hbit

theorem direntAt_cases {offset : ℕ} (hp : count ≤ payload.length)
    (ho : offset + astraVfsDirentHeader ≤ count) :
    direntAt payload count offset = some (.error .protocol) ∨
      ∃ entry, direntAt payload count offset =
          some (.ok (entry, offset + (recordOf entry).length)) ∧
        ListedEntry entry ∧ offset + (recordOf entry).length ≤ count ∧
        loadBytes payload offset (recordOf entry).length = some (recordOf entry) := by
  obtain ⟨values, hv⟩ := Option.isSome_iff_exists.1
    (loadFields_isSome (show offset + direntLayout.sum ≤ payload.length from ho.trans hp))
  obtain ⟨hall, hheader⟩ := loadFields_some hv (by omega)
  unfold direntAt
  rw [hv]
  simp only [direntLayout, forall₂_cons_left_iff, forall₂_nil_left_iff] at hall
  obtain ⟨kind, _, hkind, ⟨mode, _, hmode, ⟨nlink, _, hnlink, ⟨length, _, hlength, ⟨reserved, _, -,
    ⟨uid, _, huid, ⟨gid, _, hgid, ⟨size, _, hsize, ⟨mtime, _, hmtime, ⟨valid, _, hvalid,
    ⟨identityReserved, _, -, ⟨volume, _, hvolume, ⟨inode, _, hinode, ⟨generation, _, hgeneration,
    rfl, rfl⟩, rfl⟩, rfl⟩, rfl⟩, rfl⟩, rfl⟩, rfl⟩, rfl⟩, rfl⟩, rfl⟩, rfl⟩, rfl⟩, rfl⟩, rfl⟩ := hall
  dsimp only
  by_cases hreserved : reserved ≠ 0
  · exact .inl (if_pos hreserved)
  rw [if_neg hreserved]
  obtain rfl := not_not.1 hreserved
  split_ifs with hmeta hlen
  · exact .inl rfl
  · exact .inl rfl
  push Not at hmeta hlen
  obtain ⟨hmask, rfl, hmv, hmi, hmg⟩ := hmeta
  have hand := and_of_and_not hmask
  obtain ⟨name, hname⟩ : ∃ name, loadBytes payload (offset + astraVfsDirentHeader) length =
      some name := ⟨_, if_pos (by dsimp only [astraVfsDirentHeader] at *; omega)⟩
  obtain ⟨-, -, -, -, hnl⟩ := loadBytes_eq_some.1 hname
  rw [hname]
  dsimp only
  by_cases hutf : astraUtf8Validate name = false
  · exact .inl (if_pos hutf)
  rw [if_neg hutf]
  have hfield : ∀ {flag : UInt32} {field : ℕ},
      (UInt32.ofNat valid &&& flag = 0 → field = 0) →
      identityField (UInt32.ofNat valid) flag (UInt64.ofNat field) = UInt64.ofNat field := by
    intro flag field h0
    unfold identityField
    split_ifs with hz
    · rfl
    · rw [h0 (not_not.1 hz)]
      rfl
  let info : AstraVfsNodeInfo := ⟨UInt64.ofNat size, UInt64.ofNat mtime, UInt32.ofNat uid,
    UInt32.ofNat gid, UInt16.ofNat kind, UInt16.ofNat mode, UInt16.ofNat nlink,
    ⟨UInt32.ofNat valid, UInt32.ofNat 0, UInt64.ofNat volume, UInt64.ofNat inode,
      UInt64.ofNat generation⟩⟩
  have hinfo : info.masked = info := by
    unfold AstraVfsNodeInfo.masked
    rw [hand, hfield hmv, hfield hmi, hfield hmg]
    rfl
  have hfields : direntFields info name = [kind, mode, nlink, length, 0, uid, gid, size, mtime,
      valid, 0, volume, inode, generation] := by
    unfold direntFields
    dsimp only [info]
    rw [hand, hfield hmv, hfield hmi, hfield hmg, hnl,
      Nat.mod_eq_of_lt (by dsimp only [astraVfsNameMax] at hlen; omega),
      UInt16.toNat_ofNat_of_lt' hkind, UInt16.toNat_ofNat_of_lt' hmode,
      UInt16.toNat_ofNat_of_lt' hnlink, UInt32.toNat_ofNat_of_lt' huid,
      UInt32.toNat_ofNat_of_lt' hgid, UInt64.toNat_ofNat_of_lt' hsize,
      UInt64.toNat_ofNat_of_lt' hmtime, UInt32.toNat_ofNat_of_lt' hvalid,
      UInt64.toNat_ofNat_of_lt' hvolume, UInt64.toNat_ofNat_of_lt' hinode,
      UInt64.toNat_ofNat_of_lt' hgeneration]
  have hlength : (recordOf ⟨name, info⟩).length = astraVfsDirentHeader + length := by
    rw [recordOf, length_direntRecord, hnl]
  have hrecord : loadBytes payload offset (astraVfsDirentHeader + length) =
      some (recordOf ⟨name, info⟩) := by
    rw [recordOf, direntRecord_eq, hfields]
    exact loadBytes_add hheader hname
  refine .inr ⟨⟨name, info⟩, ?_, ⟨⟨?_, ?_, ?_⟩, hinfo⟩, ?_, ?_⟩
  · rw [hlength, ← Nat.add_assoc]
  · rintro rfl
    exact hlen.1 hnl.symm
  · dsimp only
    rw [hnl]
    exact hlen.2.1
  · simpa using hutf
  · rw [hlength]
    dsimp only [astraVfsDirentHeader] at hlen ho ⊢
    omega
  · rw [hlength]
    exact hrecord

/-! ## Pages -/

/-- The records of entries, one behind the other. -/
def pageOf (entries : List AstraVfsDirEntry) : List UInt8 := entries.flatMap recordOf

theorem pageOf_cons (entries : List AstraVfsDirEntry) :
    pageOf (entry :: entries) = recordOf entry ++ pageOf entries := rfl

theorem header_le_record : astraVfsDirentHeader ≤ (recordOf entry).length := by
  rw [recordOf, length_direntRecord]
  exact Nat.le_add_right _ _

theorem length_le_pageOf : ∀ entries : List AstraVfsDirEntry,
    entries.length ≤ (pageOf entries).length
  | [] => Nat.le_refl _
  | entry :: entries => by
    have hrest := length_le_pageOf entries
    have hrecord := header_le_record entry
    rw [pageOf_cons, length_append, length_cons]
    dsimp only [astraVfsDirentHeader] at hrecord
    omega

theorem direntsFrom_page {capacity : ℕ} (behind : List UInt8) :
    ∀ {more : List AstraVfsDirEntry} {fuel : ℕ} (before : List UInt8) (found : List AstraVfsDirEntry),
    (∀ entry ∈ more, ListedEntry entry) → more.length ≤ fuel →
    found.length + more.length ≤ capacity →
    direntsFrom (before ++ pageOf more ++ behind) (before ++ pageOf more).length capacity fuel
      before.length found = some (.ok (found ++ more))
  | [], fuel, before, found, _, _, _ => by
    rw [show pageOf [] = [] from rfl, append_nil, append_nil]
    cases fuel <;> rw [direntsFrom, if_neg (Nat.lt_irrefl _)]
  | entry :: more, 0, before, found, _, hfuel, _ => absurd hfuel (by simp)
  | entry :: more, fuel + 1, before, found, hall, hfuel, hcap => by
    have hrecord := header_le_record entry
    have hlength : (before ++ pageOf (entry :: more)).length =
        before.length + (recordOf entry).length + (pageOf more).length := by
      rw [pageOf_cons, length_append, length_append, Nat.add_assoc]
    have hends : (before ++ recordOf entry).length ≤ (before ++ pageOf (entry :: more)).length := by
      rw [hlength, length_append]
      omega
    have hroom : (found ++ [entry]).length + more.length ≤ capacity := by
      simp only [length_append, length_cons, length_nil] at hcap ⊢
      omega
    have hat := direntAt_record (hall entry mem_cons_self) before (pageOf more ++ behind) hends
    have hrest := direntsFrom_page behind (before ++ recordOf entry) (found ++ [entry])
      (fun e he => hall e (mem_cons_of_mem _ he)) (Nat.le_of_succ_le_succ hfuel) hroom
    have hpayload : before ++ pageOf (entry :: more) ++ behind =
        before ++ recordOf entry ++ (pageOf more ++ behind) := by
      simp only [pageOf_cons, append_assoc]
    rw [append_assoc before, ← pageOf_cons] at hrest
    rw [← hpayload] at hat
    rw [direntsFrom, if_pos (by rw [hlength]; dsimp only [astraVfsDirentHeader] at hrecord; omega),
      if_neg (by rw [hlength]; simp only [length_cons] at hcap; omega), hat]
    dsimp only
    rw [hrest, append_assoc, singleton_append]

theorem direntsFrom_cases {capacity : ℕ} (hp : count ≤ payload.length) :
    ∀ {fuel offset : ℕ} (found : List AstraVfsDirEntry), count - offset ≤ fuel → offset ≤ count →
    found.length ≤ capacity →
    direntsFrom payload count capacity fuel offset found = some (.error .protocol) ∨
      ∃ more, direntsFrom payload count capacity fuel offset found = some (.ok (found ++ more)) ∧
        (∀ entry ∈ more, ListedEntry entry) ∧ found.length + more.length ≤ capacity ∧
        loadBytes payload offset (count - offset) = some (pageOf more) := by
  intro fuel
  have hdone : ∀ {offset : ℕ}, offset ≤ count → ¬offset < count →
      loadBytes payload offset (count - offset) = some (pageOf []) := by
    intro offset ho hlt
    obtain rfl : offset = count := by omega
    unfold loadBytes
    rw [if_pos (by omega), Nat.sub_self]
    rfl
  induction fuel with
  | zero =>
    intro offset found hfuel ho hcap
    refine .inr ⟨[], ?_, nofun, hcap, hdone ho (by omega)⟩
    rw [direntsFrom, if_neg (by omega), append_nil]
  | succ fuel ih =>
    intro offset found hfuel ho hcap
    rw [direntsFrom]
    split
    · by_cases hroom : found.length = capacity ∨ count - offset < astraVfsDirentHeader
      · exact .inl (if_pos hroom)
      rw [if_neg hroom]
      push Not at hroom
      obtain hbad | ⟨entry, hgood, hlisted, hend, hload⟩ :=
        direntAt_cases hp (show offset + astraVfsDirentHeader ≤ count by omega)
      · rw [hbad]
        exact .inl rfl
      · rw [hgood]
        dsimp only
        have hrecord := header_le_record entry
        dsimp only [astraVfsDirentHeader] at hrecord
        obtain herr | ⟨more, hok, hall, hcap', hrest⟩ := ih (found ++ [entry])
          (show count - (offset + (recordOf entry).length) ≤ fuel by omega) hend
          (by rw [length_append, length_singleton]; omega)
        · exact .inl herr
        · refine .inr ⟨entry :: more, ?_, ?_, ?_, ?_⟩
          · rw [hok, append_assoc, singleton_append]
          · rintro e (_ | ⟨_, he⟩)
            · exact hlisted
            · exact hall e he
          · rw [length_append, length_singleton] at hcap'
            rw [length_cons]
            omega
          · rw [show count - offset = (recordOf entry).length +
              (count - (offset + (recordOf entry).length)) by omega, loadBytes_add hload hrest]
            rfl
    · rename_i hlt
      exact .inr ⟨[], by rw [append_nil], nofun, hcap, hdone ho hlt⟩

theorem direntsFrom_take {capacity : ℕ} (hp : count ≤ payload.length) :
    direntsFrom payload count capacity count 0 [] = some (.error .protocol) ∧
        direntsFrom (payload.take count) count capacity count 0 [] = some (.error .protocol) ∨
      ∃ found, direntsFrom payload count capacity count 0 [] = some (.ok found) ∧
        direntsFrom (payload.take count) count capacity count 0 [] = some (.ok found) ∧
        (∀ entry ∈ found, ListedEntry entry) ∧ found.length ≤ capacity ∧
        payload.take count = pageOf found := by
  have hwhole : ∀ {found : List AstraVfsDirEntry} (behind : List UInt8),
      (∀ entry ∈ found, ListedEntry entry) → found.length ≤ capacity →
      payload.take count = pageOf found →
      direntsFrom (pageOf found ++ behind) count capacity count 0 [] = some (.ok found) := by
    intro found behind hall hcap htake
    have hcount : (pageOf found).length = count := by
      rw [← htake, length_take, Nat.min_eq_left hp]
    have h := direntsFrom_page behind [] [] hall (hcount ▸ length_le_pageOf found)
      (by simpa using hcap)
    rwa [nil_append, hcount, nil_append, length_nil] at h
  have hload : ∀ {bytes : List UInt8} {found : List AstraVfsDirEntry},
      loadBytes bytes 0 (count - 0) = some (pageOf found) → bytes.take count = pageOf found := by
    intro bytes found h
    unfold loadBytes at h
    split_ifs at h
    exact Option.some.inj h
  have htaken : count ≤ (payload.take count).length := by
    rw [length_take, Nat.min_eq_left hp]
  have hzero : ([] : List AstraVfsDirEntry).length ≤ capacity := Nat.zero_le _
  have hfuel : count - 0 ≤ count := Nat.le_refl _
  obtain herr | ⟨found, hok, hall, hcap, hbytes⟩ :=
    direntsFrom_cases hp [] hfuel (Nat.zero_le _) hzero
  · refine .inl ⟨herr, ?_⟩
    obtain herr' | ⟨found, hok, hall, hcap, hbytes⟩ :=
      direntsFrom_cases htaken [] hfuel (Nat.zero_le _) hzero
    · exact herr'
    · have htake := hload hbytes
      rw [take_take, Nat.min_self] at htake
      have hok' := hwhole (payload.drop count) hall (by simpa using hcap) htake
      rw [← htake, take_append_drop, herr] at hok'
      cases hok'
  · have htake := hload hbytes
    rw [nil_append] at hok
    have hcap' : found.length ≤ capacity := by simpa using hcap
    have hok' := hwhole [] hall hcap' htake
    rw [← htake, append_nil] at hok'
    exact .inr ⟨found, hok, hok', hall, hcap', htake⟩

theorem readdirBatch_page (path : Option CString) (stored : Bool) {capacity : ℕ}
    {reply : ReaddirReply}
    (hstorage : capacity * (astraVfsDirentHeader + astraVfsNameMax - 1) ≤ reply.resultBytes.length) :
    readdirBatch path stored capacity { reply with
        resultBytes := reply.resultBytes.take reply.count } =
      readdirBatch path stored capacity reply ∧
    ((∃ status, readdirBatch path stored capacity reply = some (.error status)) ∨
      ∃ found, readdirBatch path stored capacity reply = some (.ok (found, reply.cursor)) ∧
        (∀ entry ∈ found, ListedEntry entry) ∧ found.length ≤ capacity ∧
        reply.resultBytes.take reply.count = pageOf found) := by
  unfold readdirBatch
  by_cases hpath : path ≠ none ∧ (astraVfsPathMeasure path).1 ≠ .ok
  · simp only [if_pos hpath]
    exact ⟨trivial, .inl ⟨_, rfl⟩⟩
  by_cases hzero : capacity = 0
  · simp only [if_neg hpath, if_pos hzero]
    exact ⟨trivial, .inl ⟨_, rfl⟩⟩
  by_cases hbound : capacity > astraVfsBulkMax / (astraVfsDirentHeader + astraVfsNameMax - 1)
  · simp only [if_neg hpath, if_neg hzero, if_pos hbound]
    exact ⟨trivial, .inl ⟨_, rfl⟩⟩
  by_cases hstored : stored = false
  · simp only [if_neg hpath, if_neg hzero, if_neg hbound, if_pos hstored]
    exact ⟨trivial, .inl ⟨_, rfl⟩⟩
  by_cases hstatus : reply.status ≠ .ok
  · simp only [if_neg hpath, if_neg hzero, if_neg hbound, if_neg hstored, if_pos hstatus]
    exact ⟨trivial, .inl ⟨_, rfl⟩⟩
  by_cases hcount : reply.count > capacity * (astraVfsDirentHeader + astraVfsNameMax - 1)
  · simp only [if_neg hpath, if_neg hzero, if_neg hbound, if_neg hstored, if_neg hstatus,
      if_pos hcount]
    exact ⟨trivial, .inl ⟨_, rfl⟩⟩
  simp only [if_neg hpath, if_neg hzero, if_neg hbound, if_neg hstored, if_neg hstatus,
    if_neg hcount]
  obtain ⟨herr, herr'⟩ | ⟨found, hok, hok', hall, hcap, htake⟩ :=
    direntsFrom_take ((not_lt.1 hcount).trans hstorage)
  · rw [herr, herr']
    exact ⟨rfl, .inl ⟨_, rfl⟩⟩
  · rw [hok, hok']
    dsimp only
    split
    · exact ⟨rfl, .inl ⟨_, rfl⟩⟩
    · exact ⟨rfl, .inr ⟨found, rfl, hall, hcap, htake⟩⟩

/-! ## Directories -/

/-- The backend enumerates the entries of a directory: entry `i` is behind `cookie i`, only the first
cookie of an entry is zero, and at the end either the cookie is zero or there is nothing behind it.
Pages are packed by the service. -/
structure Enumerates (backend : AstraVfsBackend) (entries : List AstraVfsDirEntry)
    (cookie : ℕ → UInt64) : Prop where
  packed : backend.readdirBatch = none
  names : ∀ entry ∈ entries, ListedName entry.name
  start : cookie 0 = 0
  positive : ∀ i < entries.length, cookie i = 0 → i = 0
  status : ∀ i < entries.length, (backend.readdir (cookie i)).status = .ok
  name : ∀ (i : ℕ) (h : i < entries.length),
    bufferName (backend.readdir (cookie i)).name = entries[i].name
  info : ∀ (i : ℕ) (h : i < entries.length), (backend.readdir (cookie i)).info = entries[i].info
  next : ∀ i < entries.length, (backend.readdir (cookie i)).next = cookie (i + 1)
  ends : entries = [] ∨ cookie entries.length ≠ 0 →
    (backend.readdir (cookie entries.length)).status = .notFound

variable {backend : AstraVfsBackend} {entries : List AstraVfsDirEntry} {cookie : ℕ → UInt64}
  {capacity : ℕ}

theorem Enumerates.stays (h : Enumerates backend entries cookie) (hi : i < entries.length)
    (he : cookie (i + 1) = cookie i) : ∀ d, i + d ≤ entries.length → cookie (i + d) = cookie i
  | 0, _ => rfl
  | d + 1, hd => by
    have hsame := h.stays hi he d (by omega)
    have hnext := h.next (i + d) (by omega)
    rw [hsame, h.next i hi, he] at hnext
    exact hnext.symm

theorem Enumerates.advances (h : Enumerates backend entries cookie)
    (hone : ¬(entries.length = 1 ∧ cookie 1 = 0)) (hi : i < entries.length) :
    cookie (i + 1) ≠ cookie i := by
  intro he
  have hlast := h.stays hi he (entries.length - i) (by omega)
  rw [show i + (entries.length - i) = entries.length by omega] at hlast
  by_cases h0 : cookie i = 0
  · obtain rfl := h.positive i hi h0
    have h1 : cookie 1 = 0 := he.trans h0
    by_cases h2 : 1 < entries.length
    · exact absurd (h.positive 1 h2 h1) (by decide)
    · exact hone ⟨by omega, h1⟩
  · have hend := h.ends (.inr (hlast ▸ h0))
    rw [hlast, h.status i hi] at hend
    cases hend

theorem Enumerates.page (h : Enumerates backend entries cookie)
    (hone : ¬(entries.length = 1 ∧ cookie 1 = 0))
    (hroom : ∀ entry ∈ entries, astraVfsDirentHeader + entry.name.length ≤ capacity) :
    ∀ (left : ℕ) {k i : ℕ} {used : List UInt8}, i ≤ entries.length →
    (k = 0 → i < entries.length ∧ used = []) → (k ≠ 0 → cookie i ≠ 0) →
    ∃ j next, i ≤ j ∧ j ≤ entries.length ∧ j ≤ i + left ∧ (k = 0 → 0 < left → i < j) ∧
      (next = cookie j ∨ j = entries.length ∧ next = 0) ∧
      readdirFrom backend capacity left k (cookie i) used =
        .ok (used ++ pageOf ((entries.drop i).take (j - i)), next)
  | 0, k, i, used, hi, hfirst, _ => by
    refine ⟨i, cookie i, Nat.le_refl i, hi, Nat.le_refl i, nofun, .inl rfl, ?_⟩
    rw [readdirFrom, Nat.sub_self, take_zero]
    exact congrArg Except.ok (Prod.ext (append_nil used).symm rfl)
  | left + 1, k, i, used, hi, hfirst, hlater => by
    have hstop : ∀ {next : UInt64}, k ≠ 0 → (next = cookie i ∨ i = entries.length ∧ next = 0) →
        readdirFrom backend capacity (left + 1) k (cookie i) used = .ok (used, next) →
        ∃ j next, i ≤ j ∧ j ≤ entries.length ∧ j ≤ i + (left + 1) ∧
          (k = 0 → 0 < left + 1 → i < j) ∧ (next = cookie j ∨ j = entries.length ∧ next = 0) ∧
          readdirFrom backend capacity (left + 1) k (cookie i) used =
            .ok (used ++ pageOf ((entries.drop i).take (j - i)), next) := by
      intro next hk hnext he
      refine ⟨i, next, Nat.le_refl i, hi, Nat.le_add_right i _, fun h0 => absurd h0 hk, hnext, ?_⟩
      rw [he, Nat.sub_self, take_zero]
      exact congrArg Except.ok (Prod.ext (append_nil used).symm rfl)
    obtain hlt | rfl := hi.lt_or_eq
    · have hat := getElem_mem hlt
      have hname := h.names _ hat
      have hrecord : direntRecord entries[i].info entries[i].name = recordOf entries[i] := rfl
      have hshort := hname.short
      have hadvance := h.advances hone hlt
      by_cases hfull : astraVfsDirentHeader + entries[i].name.length > capacity - used.length
      · have hk : k ≠ 0 := by
          intro h0
          have := hroom _ hat
          rw [(hfirst h0).2, length_nil] at hfull
          omega
        refine hstop hk (.inl rfl) ?_
        unfold readdirFrom
        dsimp only
        rw [h.status i hlt, h.name i hlt, h.next i hlt, if_neg (by decide), if_neg (by decide),
          if_neg, if_pos hfull, if_neg hk]
        rintro (hn | hn | hn | hn)
        · exact hname.ne_nil (length_eq_zero_iff.1 hn)
        · omega
        · exact hadvance hn
        · simp [hname.utf8] at hn
      have hstep : readdirFrom backend capacity (left + 1) k (cookie i) used =
          if cookie (i + 1) = 0 then .ok (used ++ recordOf entries[i], 0)
          else readdirFrom backend capacity left (k + 1) (cookie (i + 1))
            (used ++ recordOf entries[i]) := by
        conv_lhs => unfold readdirFrom
        dsimp only
        rw [h.status i hlt, h.name i hlt, h.next i hlt, h.info i hlt, if_neg (by decide),
          if_neg (by decide), if_neg, if_neg hfull, hrecord]
        rintro (hn | hn | hn | hn)
        · exact hname.ne_nil (length_eq_zero_iff.1 hn)
        · omega
        · exact hadvance hn
        · simp [hname.utf8] at hn
      have htake : ∀ j, i + 1 ≤ j → (entries.drop i).take (j - i) =
          entries[i] :: (entries.drop (i + 1)).take (j - (i + 1)) := by
        intro j hj
        rw [drop_eq_getElem_cons hlt, show j - i = (j - (i + 1)) + 1 by omega,
          take_succ_cons]
      by_cases hzero : cookie (i + 1) = 0
      · refine ⟨i + 1, 0, Nat.le_succ i, hlt, by omega, fun _ _ => Nat.lt_succ_self i,
          .inl hzero.symm, ?_⟩
        rw [hstep, if_pos hzero, htake _ (Nat.le_refl _), Nat.sub_self, take_zero, pageOf_cons]
        rw [show pageOf [] = [] from rfl, append_nil]
      · obtain ⟨j, next, hj, hjn, hjl, -, hnext, hrest⟩ :=
          h.page hone hroom left (k := k + 1) hlt
            nofun (fun _ => hzero)
        refine ⟨j, next, by omega, hjn, by omega, fun _ _ => by omega, hnext, ?_⟩
        rw [hstep, if_neg hzero, hrest, htake j hj, pageOf_cons, append_assoc]
    · have hk : k ≠ 0 := fun h0 => absurd (hfirst h0).1 (Nat.lt_irrefl _)
      refine hstop hk (.inr ⟨rfl, rfl⟩) ?_
      unfold readdirFrom
      dsimp only
      rw [h.ends (.inr (hlater hk)), if_pos rfl, if_neg hk]

theorem pageOf_masked (entries : List AstraVfsDirEntry) :
    pageOf (entries.map AstraVfsDirEntry.masked) = pageOf entries := by
  unfold pageOf
  rw [flatMap_map]
  exact congrArg entries.flatMap (funext fun entry => direntRecord_masked entry.info entry.name)

theorem length_pageOf_le : ∀ {entries : List AstraVfsDirEntry},
    (∀ entry ∈ entries, ListedName entry.name) →
    (pageOf entries).length ≤ entries.length * (astraVfsDirentHeader + astraVfsNameMax - 1)
  | [], _ => Nat.zero_le _
  | entry :: entries, h => by
    have hrest := length_pageOf_le fun e he => h e (mem_cons_of_mem _ he)
    have hshort := (h entry mem_cons_self).short
    rw [pageOf_cons, length_append, recordOf, length_direntRecord, length_cons, Nat.succ_mul]
    omega

variable {path : CString} {entryLimit : ℕ}

theorem readdirBatch_entries {page : List AstraVfsDirEntry} (next : UInt64)
    (hpath : (astraVfsPathMeasure (some path)).1 = .ok)
    (hbound : entryLimit ≤ astraVfsBulkMax / (astraVfsDirentHeader + astraVfsNameMax - 1))
    (hnames : ∀ entry ∈ page, ListedName entry.name) (hne : page ≠ [])
    (hlimit : page.length ≤ entryLimit) :
    readdirBatch (some path) true entryLimit ⟨.ok, (pageOf page).length, next, pageOf page⟩ =
      some (.ok (page.map AstraVfsDirEntry.masked, next)) := by
  have hlisted : ∀ entry ∈ page.map AstraVfsDirEntry.masked, ListedEntry entry := by
    intro entry he
    obtain ⟨raw, hraw, rfl⟩ := mem_map.1 he
    exact ⟨hnames raw hraw, masked_masked raw.info⟩
  have hlength : (page.map AstraVfsDirEntry.masked).length = page.length := length_map _
  have hpos : 0 < page.length := length_pos_iff.2 hne
  have hfits : (pageOf page).length ≤ entryLimit * (astraVfsDirentHeader + astraVfsNameMax - 1) :=
    (length_pageOf_le hnames).trans (Nat.mul_le_mul_right _ hlimit)
  have hread := direntsFrom_page [] [] [] hlisted (hlength ▸ length_le_pageOf page)
    (show ([] : List AstraVfsDirEntry).length + _ ≤ entryLimit by simpa using hlimit)
  rw [pageOf_masked, append_nil, nil_append, nil_append] at hread
  unfold readdirBatch
  dsimp only
  rw [if_neg (by simp [hpath]), if_neg (by omega), if_neg (by omega), if_neg (by decide),
    if_neg (by decide), if_neg (by omega)]
  rw [length_nil] at hread
  rw [hread]
  dsimp only
  rw [if_neg (by omega)]

theorem Enumerates.listFrom_spec (h : Enumerates backend entries cookie)
    (hone : ¬(entries.length = 1 ∧ cookie 1 = 0))
    (hpath : (astraVfsPathMeasure (some path)).1 = .ok) (hpos : 0 < entryLimit)
    (hbound : entryLimit ≤ astraVfsBulkMax / (astraVfsDirentHeader + astraVfsNameMax - 1))
    (hcapacity : astraVfsDirentHeader + 1 ≤ capacity)
    (hroom : ∀ entry ∈ entries, astraVfsDirentHeader + entry.name.length ≤ capacity) :
    ∀ {fuel i : ℕ}, i ≤ entries.length → (i = 0 ∨ cookie i ≠ 0) → entries.length - i < fuel →
    listFrom backend path entryLimit capacity fuel (cookie i) =
      some (.ok ((entries.drop i).map AstraVfsDirEntry.masked))
  | 0, _, _, _, hfuel => absurd hfuel (Nat.not_lt_zero _)
  | fuel + 1, i, hi, hcookie, hfuel => by
    have hvalid : ¬((astraVfsPathMeasure (some path)).1 ≠ .ok ∨ entryLimit = 0 ∨
        capacity < astraVfsDirentHeader + 1) := by
      rintro (hn | hn | hn)
      · exact hn hpath
      · omega
      · omega
    unfold listFrom astraVfsBackendReaddirInto
    rw [if_neg hvalid, h.packed]
    obtain hlt | rfl := hi.lt_or_eq
    · obtain ⟨j, next, -, hjn, hjl, hfirst, hnext, hfrom⟩ :=
        h.page hone hroom entryLimit (k := 0) hi (fun _ => ⟨hlt, (rfl : [] = [])⟩)
          fun hk => absurd rfl hk
      have hij := hfirst rfl hpos
      have hlen : ((entries.drop i).take (j - i)).length = j - i := by
        rw [length_take, length_drop]
        omega
      have hnames : ∀ entry ∈ (entries.drop i).take (j - i), ListedName entry.name :=
        fun entry he => h.names entry (mem_of_mem_drop (mem_of_mem_take he))
      have hne : (entries.drop i).take (j - i) ≠ [] := by
        rw [← length_pos_iff, hlen]
        omega
      have hread := readdirBatch_entries next hpath hbound hnames hne (by omega)
      rw [hfrom]
      dsimp only
      rw [nil_append, hread]
      dsimp only
      by_cases hzero : next = 0
      · have hj : j = entries.length := by
          obtain rfl | ⟨hj, -⟩ := hnext
          · by_contra hj
            have := h.positive j (by omega) hzero
            omega
          · exact hj
        rw [if_pos hzero, hj, take_of_length_le (by rw [length_drop])]
      · obtain rfl : next = cookie j := hnext.resolve_right fun hn => hzero hn.2
        rw [if_neg hzero, h.listFrom_spec hone hpath hpos hbound hcapacity hroom hjn (.inr hzero)
          (by omega)]
        have hjoin : (entries.drop i).take (j - i) ++ entries.drop j = entries.drop i := by
          conv_rhs => rw [← take_append_drop (j - i) (entries.drop i), drop_drop]
          rw [show i + (j - i) = j by omega]
        have hmap := congrArg (List.map AstraVfsDirEntry.masked) hjoin
        rw [map_append] at hmap
        rw [← hmap]
        rfl
    · have hend : (backend.readdir (cookie entries.length)).status = .notFound :=
        h.ends (hcookie.imp_left length_eq_zero_iff.1)
      have hfrom : readdirFrom backend capacity entryLimit 0 (cookie entries.length) [] =
          .error .notFound := by
        obtain ⟨left, rfl⟩ := Nat.exists_eq_succ_of_ne_zero hpos.ne'
        unfold readdirFrom
        dsimp only
        rw [hend, if_pos rfl, if_pos rfl]
      rw [hfrom]
      unfold readdirBatch
      dsimp only
      rw [if_neg (by simp [hpath]), if_neg (by omega), if_neg (by omega), if_neg (by decide),
        if_pos (by decide)]
      dsimp only
      rw [if_pos rfl, drop_length]
      rfl

theorem Enumerates.listFrom_stuck (h : Enumerates backend entries cookie)
    (hlen : entries.length = 1) (hzero : cookie 1 = 0)
    (hpath : (astraVfsPathMeasure (some path)).1 = .ok) (hpos : 0 < entryLimit)
    (hbound : entryLimit ≤ astraVfsBulkMax / (astraVfsDirentHeader + astraVfsNameMax - 1))
    (hcapacity : astraVfsDirentHeader + 1 ≤ capacity) (fuel : ℕ) :
    listFrom backend path entryLimit capacity (fuel + 1) 0 = some (.error .protocol) := by
  have hfirst : 0 < entries.length := by omega
  have hfrom : readdirFrom backend capacity entryLimit 0 0 [] = .error .protocol := by
    obtain ⟨left, rfl⟩ := Nat.exists_eq_succ_of_ne_zero hpos.ne'
    have hstatus := h.status 0 hfirst
    have hnext := h.next 0 hfirst
    rw [h.start] at hstatus hnext
    unfold readdirFrom
    dsimp only
    rw [hstatus, if_neg (by decide), if_neg (by decide),
      if_pos (.inr (.inr (.inl (hnext.trans hzero))))]
  have hvalid : ¬((astraVfsPathMeasure (some path)).1 ≠ .ok ∨ entryLimit = 0 ∨
      capacity < astraVfsDirentHeader + 1) := by
    rintro (hn | hn | hn)
    · exact hn hpath
    · omega
    · omega
  have hpage : astraVfsBackendReaddirInto backend (some path) 0 entryLimit capacity =
      (.protocol, [], 0) := by
    unfold astraVfsBackendReaddirInto
    rw [if_neg hvalid, h.packed]
    rw [hfrom]
  rw [listFrom, hpage]
  unfold readdirBatch
  dsimp only
  rw [if_neg (by simp [hpath]), if_neg (by omega), if_neg (by omega), if_neg (by decide),
    if_pos (by decide)]
  rfl

theorem ramReaddir_enumerates {children : List AstraVfsDirEntry}
    (hnames : ∀ entry ∈ children, ListedName entry.name) (hlen : children.length < 2 ^ 64) :
    Enumerates ⟨ramReaddir children, none⟩ children
      fun i => if i = children.length then 0 else UInt64.ofNat i := by
  have hcookie : ∀ i < children.length, (UInt64.ofNat i).toNat = i := fun i hi =>
    UInt64.toNat_ofNat_of_lt' (hi.trans hlen)
  have hanswer : ∀ (i : ℕ) (hi : i < children.length),
      ramReaddir children (if i = children.length then 0 else UInt64.ofNat i) =
        ⟨.ok, children[i].name ++ [0], children[i].info,
          if i + 1 = children.length then 0 else UInt64.ofNat (i + 1)⟩ := by
    intro i hi
    have hshort := (hnames _ (getElem_mem hi)).short
    unfold ramReaddir
    rw [if_neg hi.ne, hcookie i hi, List.getElem?_eq_getElem hi]
    dsimp only
    rw [if_neg (by omega), UInt64.ofNat_add]
    rfl
  constructor
  · rfl
  · exact hnames
  · split_ifs <;> rfl
  · intro i hi h0
    rw [if_neg hi.ne] at h0
    rw [← hcookie i hi, h0]
    rfl
  · intro i hi
    exact congrArg ReaddirAnswer.status (hanswer i hi)
  · intro i hi
    exact (congrArg (fun answer => bufferName answer.name) (hanswer i hi)).trans
      (hnames _ (getElem_mem hi)).bufferName
  · intro i hi
    exact congrArg ReaddirAnswer.info (hanswer i hi)
  · intro i hi
    exact congrArg ReaddirAnswer.next (hanswer i hi)
  · intro hends
    rw [if_pos rfl] at hends
    obtain rfl := hends.resolve_right fun h => h rfl
    rfl

/-- The pages of a directory are its entries, in order, exactly unless it has a single entry behind
which the backend gives the cookie zero; and the client takes any bytes for a page exactly where they
are the records of the entries it answers. -/
theorem readdir_pages (path : Option CString) (stored : Bool) (capacity : ℕ)
    (reply : ReaddirReply) :
    (∀ {backend : AstraVfsBackend} {entries : List AstraVfsDirEntry} {cookie : ℕ → UInt64}
        {path : CString} {entryLimit capacity : ℕ}, Enumerates backend entries cookie →
      (astraVfsPathMeasure (some path)).1 = .ok → 0 < entryLimit →
      entryLimit ≤ astraVfsBulkMax / (astraVfsDirentHeader + astraVfsNameMax - 1) →
      astraVfsDirentHeader + 1 ≤ capacity →
      (∀ entry ∈ entries, astraVfsDirentHeader + entry.name.length ≤ capacity) →
      ((∀ fuel > entries.length, listFrom backend path entryLimit capacity fuel 0 =
          some (.ok (entries.map AstraVfsDirEntry.masked))) ↔
        ¬(entries.length = 1 ∧ cookie 1 = 0))) ∧
    (capacity * (astraVfsDirentHeader + astraVfsNameMax - 1) ≤ reply.resultBytes.length →
      readdirBatch path stored capacity { reply with
          resultBytes := reply.resultBytes.take reply.count } =
        readdirBatch path stored capacity reply ∧
      ((∃ status, readdirBatch path stored capacity reply = some (.error status)) ∨
        ∃ found, readdirBatch path stored capacity reply = some (.ok (found, reply.cursor)) ∧
          (∀ entry ∈ found, ListedEntry entry) ∧ found.length ≤ capacity ∧
          reply.resultBytes.take reply.count = pageOf found)) := by
  refine ⟨?_, fun h => readdirBatch_page path stored h⟩
  intro backend entries cookie path entryLimit capacity h hpath hpos hbound hcapacity hroom
  constructor
  · rintro hall ⟨hlen, hzero⟩
    have hlist := hall (entries.length + 1) (Nat.lt_succ_self _)
    rw [h.listFrom_stuck hlen hzero hpath hpos hbound hcapacity] at hlist
    cases hlist
  · intro hone fuel hfuel
    have hlist := h.listFrom_spec hone hpath hpos hbound hcapacity hroom (Nat.zero_le _)
      (.inl rfl) (show entries.length - 0 < fuel from hfuel)
    rwa [h.start, drop_zero] at hlist

/-- A file of the RAM backend. -/
def ramFile (name : List UInt8) : AstraVfsDirEntry := ⟨name, ⟨5, 0, 1, 1, 1, 420, 1, ⟨2, 0, 0, 7, 0⟩⟩⟩

theorem ramFile_names : ∀ entry ∈ [ramFile [0x61], ramFile [0x62]], ListedName entry.name := by
  intro entry he
  rcases mem_pair.1 he with rfl | rfl <;> exact ⟨nofun, by decide, by decide⟩

/-- The directory "d" of the RAM backend, with one file "a" in it, cannot be listed. -/
theorem ramReaddir_alone :
    Enumerates ⟨ramReaddir [ramFile [0x61]], none⟩ [ramFile [0x61]]
        (fun i => if i = [ramFile [0x61]].length then 0 else UInt64.ofNat i) ∧
      (astraVfsPathMeasure (some (CString.ofBytes [0x64]))).1 = .ok ∧
      listFrom ⟨ramReaddir [ramFile [0x61]], none⟩ (CString.ofBytes [0x64]) 8 4096 2 0 =
        some (.error .protocol) :=
  ⟨ramReaddir_enumerates (fun entry he => ramFile_names entry (mem_append_left [ramFile [0x62]] he)) (by decide),
    by decide +kernel, by decide +kernel⟩

/-- With a second file "b" it is listed, on two pages of one entry. -/
theorem readdir_pages_two :
    listFrom ⟨ramReaddir [ramFile [0x61], ramFile [0x62]], none⟩ (CString.ofBytes [0x64]) 1 4096 3 0 =
      some (.ok [(ramFile [0x61]).masked, (ramFile [0x62]).masked]) := by
  have hroom : ∀ entry ∈ [ramFile [0x61], ramFile [0x62]],
      astraVfsDirentHeader + entry.name.length ≤ 4096 := by
    decide
  exact ((readdir_pages none false 0 ⟨.ok, 0, 0, []⟩).1
    (ramReaddir_enumerates ramFile_names (by decide)) (by decide +kernel)
    (by decide) (by decide) (by decide) hroom).2 (by decide) 3 (by decide)

end Astra
