import AstraKernel.Vfs.Ram

/-!
# A file in memory is a sparse array of bytes

Where a byte is found is its page and its place there, and no page means zero. Making a page and
growing the vector change no byte, so a write changes those it stores, and a cut makes those behind
it zero.
-/

namespace Astra

open Function List

namespace AstraVfsRamNode

variable (node : AstraVfsRamNode)

def byteAt (at_ : ℕ) : UInt8 :=
  match node.page (at_ / ramPageBytes) with
  | some p => p (at_ % ramPageBytes)
  | none => 0

end AstraVfsRamNode

/-- `bytes` with `input` over them from `start` on. -/
def written (start : ℕ) (input : List UInt8) (bytes : ℕ → UInt8) (at_ : ℕ) : UInt8 :=
  if start ≤ at_ then (input[at_ - start]?).getD (bytes at_) else bytes at_

/-- What was done to the bytes of a file. -/
inductive RamChange
  | wrote (start : ℕ) (bytes : List UInt8)
  | shrank (size : ℕ)

/-- The byte that was last written since the file last shrank to or below its place, and zero if there
is none; the last change comes first. -/
def lastWritten : List RamChange → ℕ → UInt8
  | [], _ => 0
  | .wrote start bytes :: changes, at_ => written start bytes (lastWritten changes) at_
  | .shrank size :: changes, at_ => if size ≤ at_ then 0 else lastWritten changes at_

inductive RamCall
  | write (offset : ℕ) (flags : BitVec 32) (maxEnd : ℕ) (buffer : List UInt8)
  | truncate (size : ℕ)
  | reopen (flags : BitVec 32)

/-- A call on a file, with the backend it meets and the answers of the allocator. -/
structure RamUse where
  memory : ℕ → Bool
  fs : AstraVfsRamBackend
  call : RamCall

def AstraVfsRamNode.use (node : AstraVfsRamNode) (u : RamUse) : AstraVfsRamNode :=
  match u.call with
  | .write offset flags maxEnd buffer =>
    (ramWrite u.memory u.fs node offset flags maxEnd buffer).1.node
  | .truncate size => (ramTruncate u.fs node size).2.2
  | .reopen flags => (ramOpenFound u.fs node flags).2.2

/-- The changes of a call, in front of those before it. -/
def RamUse.note (u : RamUse) (node : AstraVfsRamNode) (changes : List RamChange) :
    List RamChange :=
  match u.call with
  | .write offset flags maxEnd buffer =>
    .wrote (ramStart node offset flags)
      (buffer.take (ramWrite u.memory u.fs node offset flags maxEnd buffer).1.moved) :: changes
  | .truncate size => if size < node.size then .shrank size :: changes else changes
  | .reopen flags =>
    if (ramOpenFound u.fs node flags).1 = .ok ∧ flags &&& astraVfsOpenTruncate ≠ 0 then
      .shrank 0 :: changes
    else changes

def AstraVfsRamNode.uses : AstraVfsRamNode → List RamUse → AstraVfsRamNode
  | node, [] => node
  | node, u :: us => (node.use u).uses us

def ramChanges : AstraVfsRamNode → List RamChange → List RamUse → List RamChange
  | _, changes, [] => changes
  | node, changes, u :: us => ramChanges (node.use u) (u.note node changes) us

/-- What a write from `start` on has done to a file. -/
structure RamStored (node : AstraVfsRamNode) (start maxEnd : ℕ) (buffer : List UInt8)
    (r : RamWritten × ℕ) : Prop where
  moved : r.1.moved ≤ buffer.length
  clipped : r.1.moved ≠ 0 → start + r.1.moved ≤ maxEnd
  status : r.1.moved ≠ 0 → r.1.status = .ok
  position : r.2 = start + r.1.moved
  size : r.1.node.size = if r.1.moved = 0 then node.size else max node.size (start + r.1.moved)
  bytes : ∀ at_, r.1.node.byteAt at_ = written start (buffer.take r.1.moved) node.byteAt at_

/-- What making room changes of a file: nothing. -/
structure SameFile (node node' : AstraVfsRamNode) : Prop where
  size : node'.size = node.size
  kind : node'.kind = node.kind
  bytes : ∀ at_, node'.byteAt at_ = node.byteAt at_

section

variable {fs : AstraVfsRamBackend} {node node' : AstraVfsRamNode}
  {input : List UInt8} {bytes : ℕ → UInt8} {start index within required : ℕ}

@[simp] theorem written_nil : written start [] bytes = bytes := by
  funext at_
  simp [written]

/-- Writing in two pieces. -/
theorem written_drop {chunk : ℕ} (h : chunk ≤ input.length) :
    written (start + chunk) (input.drop chunk) (written start (input.take chunk) bytes) =
      written start input bytes := by
  funext at_
  unfold written
  by_cases hstart : start ≤ at_
  · by_cases hchunk : start + chunk ≤ at_
    · rw [if_pos hchunk, if_pos hstart, if_pos hstart, List.getElem?_drop,
        show chunk + (at_ - (start + chunk)) = at_ - start by omega,
        List.getElem?_eq_none (l := input.take chunk) (by rw [length_take]; omega)]
      rfl
    · rw [if_neg hchunk, if_pos hstart, if_pos hstart, List.getElem?_take_of_lt (by omega)]
  · rw [if_neg (by omega), if_neg hstart, if_neg hstart]

theorem SameFile.refl (node : AstraVfsRamNode) : SameFile node node :=
  ⟨rfl, rfl, fun _ => rfl⟩

theorem SameFile.trans {node'' : AstraVfsRamNode} (h : SameFile node node')
    (h' : SameFile node' node'') : SameFile node node'' :=
  ⟨h'.size.trans h.size, h'.kind.trans h.kind, fun at_ => (h'.bytes at_).trans (h.bytes at_)⟩

theorem le_of_grownCapacity : ∀ {fuel capacity grown : ℕ},
    grownCapacity required fuel capacity = some grown → required ≤ grown
  | 0, _, _, h => by cases h
  | fuel + 1, capacity, grown, h => by
    unfold grownCapacity at h
    split_ifs at h with hle
    · exact Option.some.inj h ▸ hle
    · exact le_of_grownCapacity h

variable (memory : ℕ → Bool)

/-- The vector keeps its pages as it grows. -/
theorem growSlots_same (fs : AstraVfsRamBackend) (node : AstraVfsRamNode) (required : ℕ) :
    (growSlots memory fs node required).2.2.page = node.page ∧
      (growSlots memory fs node required).2.2.size = node.size ∧
      (growSlots memory fs node required).2.2.kind = node.kind ∧
      ((growSlots memory fs node required).1 = .ok →
        required ≤ (growSlots memory fs node required).2.2.slots) := by
  unfold growSlots
  split
  · rename_i hle
    exact ⟨rfl, rfl, rfl, fun _ => hle⟩
  split
  · exact ⟨rfl, rfl, rfl, by simp⟩
  next capacity hgrown =>
  split
  · exact ⟨rfl, rfl, rfl, by simp⟩
  split
  · exact ⟨rfl, rfl, rfl, by simp⟩
  · have hrequired := le_of_grownCapacity hgrown
    refine ⟨funext fun i => ?_, rfl, rfl, fun _ => hrequired⟩
    unfold AstraVfsRamNode.page
    dsimp only
    by_cases hslot : i < node.slots
    · rw [if_pos (show i < capacity by omega), if_pos hslot]
    · rw [if_neg hslot, ite_self]

/-- A fresh page is zero, as no page was. -/
theorem freshPage_same (hnone : node.page index = none) :
    SameFile node { node with pages := update node.pages index (some fun _ => 0) } := by
  refine ⟨rfl, rfl, fun at_ => ?_⟩
  unfold AstraVfsRamNode.byteAt
  rcases eq_or_ne (at_ / ramPageBytes) index with he | hne
  · rw [he, hnone]
    unfold AstraVfsRamNode.page
    dsimp only
    rw [update_self]
    split_ifs <;> rfl
  · unfold AstraVfsRamNode.page
    dsimp only
    rw [update_of_ne hne]

theorem ramPage_same (fs : AstraVfsRamBackend) (node : AstraVfsRamNode) (index : ℕ) :
    SameFile node (ramPage memory fs node index).2.2 ∧
      ((ramPage memory fs node index).1 = .ok →
        ((ramPage memory fs node index).2.2.page index).isSome) := by
  unfold ramPage
  split
  · rename_i hfresh
    split
    · exact ⟨.refl node, by simp⟩
    next fs₁ _ =>
    obtain ⟨hpage, hsize, hkind, hslots⟩ := growSlots_same memory fs₁ node (index + 1)
    generalize growSlots memory fs₁ node (index + 1) = r at hpage hsize hkind hslots ⊢
    obtain ⟨status, fs₂, node₂⟩ := r
    have hgrown : SameFile node node₂ := ⟨hsize, hkind, fun at_ => by
      unfold AstraVfsRamNode.byteAt
      rw [hpage]⟩
    split
    next heq =>
      cases heq
      have hnone : node₂.page index = none := by
        rw [hpage]
        exact Option.isNone_iff_eq_none.1 hfresh
      refine ⟨hgrown.trans (freshPage_same hnone), fun _ => ?_⟩
      unfold AstraVfsRamNode.page
      dsimp only
      rw [if_pos (show index < node₂.slots from hslots rfl), update_self]
      rfl
    next hstatus heq =>
      cases heq
      exact ⟨hgrown, fun hok => absurd hok hstatus⟩
  · rename_i hfresh
    obtain ⟨hpage, hsize, hkind, -⟩ := growSlots_same memory fs node (index + 1)
    refine ⟨⟨hsize, hkind, fun at_ => ?_⟩, fun _ => ?_⟩
    · unfold AstraVfsRamNode.byteAt
      rw [hpage]
    · rw [hpage]
      exact Option.isSome_iff_ne_none.2 fun h => hfresh (Option.isNone_iff_eq_none.2 h)

/-- Bytes written to a page there is. -/
theorem fill_byteAt (hpage : (node.page index).isSome)
    (hfits : within + input.length ≤ ramPageBytes) (at_ : ℕ) :
    (node.fill index within input).byteAt at_ =
      written (index * ramPageBytes + within) input node.byteAt at_ := by
  unfold AstraVfsRamNode.byteAt AstraVfsRamNode.fill AstraVfsRamNode.page written
  unfold AstraVfsRamNode.page at hpage
  simp only [ramPageBytes] at hfits ⊢
  rcases eq_or_ne (at_ / 4096) index with he | hne
  · rw [he]
    split_ifs at hpage with hslot
    · obtain ⟨p, hp⟩ := Option.isSome_iff_exists.1 hpage
      rw [if_pos hslot, if_pos hslot, update_self, hp]
      dsimp only [Option.map_some]
      by_cases hwithin : within ≤ at_ % 4096
      · rw [if_pos hwithin, if_pos (by omega),
          show at_ - (index * 4096 + within) = at_ % 4096 - within by omega]
      · rw [if_neg hwithin, if_neg (by omega)]
    · exact absurd hpage (by simp)
  · rw [update_of_ne hne]
    split_ifs with hslot hstart
    · rw [List.getElem?_eq_none (by omega)]
      rfl
    · rfl
    · rw [List.getElem?_eq_none (by omega)]
      rfl
    · rfl

theorem ramWriteLoop_spec (memory : ℕ → Bool) (fs : AstraVfsRamBackend) (node : AstraVfsRamNode)
    (at_ done : ℕ) (input : List UInt8) :
    ∃ more ≤ input.length, (ramWriteLoop memory fs node at_ done input).moved = done + more ∧
      (ramWriteLoop memory fs node at_ done input).node.size = node.size ∧
      (ramWriteLoop memory fs node at_ done input).node.kind = node.kind ∧
      ∀ x, (ramWriteLoop memory fs node at_ done input).node.byteAt x =
        written at_ (input.take more) node.byteAt x := by
  have hstopped : ∀ x, node.byteAt x = written at_ (input.take 0) node.byteAt x := fun x => by
    rw [take_zero, written_nil]
  unfold ramWriteLoop
  dsimp only
  by_cases hleft : 0 < input.length
  swap
  · rw [if_neg hleft]
    exact ⟨0, Nat.zero_le _, rfl, rfl, rfl, hstopped⟩
  rw [if_pos hleft]
  split
  · exact ⟨0, Nat.zero_le _, rfl, rfl, rfl, hstopped⟩
  obtain ⟨hsame, hpage⟩ := ramPage_same memory fs node (at_ / ramPageBytes)
  generalize ramPage memory fs node (at_ / ramPageBytes) = r at hsame hpage ⊢
  obtain ⟨status, fs₁, node₁⟩ := r
  have hchunk : ramChunk at_ input.length ≤ input.length := Nat.min_le_right _ _
  have hroom : ramChunk at_ input.length ≤ ramPageBytes - at_ % ramPageBytes := Nat.min_le_left _ _
  have hpos := ramChunk_pos at_ hleft
  generalize ramChunk at_ input.length = chunk at hchunk hroom hpos ⊢
  have hlength : input.length - chunk < input.length := Nat.sub_lt hleft hpos
  split
  next heq =>
    cases heq
    obtain ⟨more, hle, hmoved, hsize, hkind, hbytes⟩ := ramWriteLoop_spec memory fs₁
      (node₁.fill (at_ / ramPageBytes) (at_ % ramPageBytes) (input.take chunk)) (at_ + chunk)
      (done + chunk) (input.drop chunk)
    rw [length_drop] at hle
    refine ⟨chunk + more, by omega, by omega, hsize.trans hsame.size, hkind.trans hsame.kind,
      fun x => ?_⟩
    -- What the page has taken, and behind it what the rest of the loop has.
    have hfilled : (node₁.fill (at_ / ramPageBytes) (at_ % ramPageBytes)
        (input.take chunk)).byteAt = written at_ (input.take chunk) node.byteAt := by
      funext y
      rw [fill_byteAt (hpage rfl) (by rw [length_take]; omega), Nat.div_add_mod',
        funext hsame.bytes]
    have htake : (input.drop chunk).take more = (input.take (chunk + more)).drop chunk := by
      rw [drop_take, Nat.add_sub_cancel_left]
    have hfirst : input.take chunk = (input.take (chunk + more)).take chunk := by
      rw [take_take, Nat.min_eq_left (Nat.le_add_right _ _)]
    rw [hbytes x, hfilled, htake, hfirst, written_drop]
    rw [length_take]
    omega
  next hstatus heq =>
    cases heq
    exact ⟨0, Nat.zero_le _, rfl, hsame.size, hsame.kind, fun x =>
      (hsame.bytes x).trans (hstopped x)⟩
termination_by input.length

theorem byteAt_chunk {offset i : ℕ} (h : offset % ramPageBytes + i < ramPageBytes) :
    node.byteAt (offset + i) = match node.page (offset / ramPageBytes) with
      | some p => p (offset % ramPageBytes + i)
      | none => 0 := by
  unfold AstraVfsRamNode.byteAt
  simp only [ramPageBytes] at h ⊢
  rw [show (offset + i) / 4096 = offset / 4096 by omega,
    show (offset + i) % 4096 = offset % 4096 + i by omega]

theorem ramReadLoop_eq (node : AstraVfsRamNode) (offset length : ℕ) (out : List UInt8) :
    ramReadLoop node offset length out = out ++ (List.range' offset length).map node.byteAt := by
  unfold ramReadLoop
  by_cases hleft : 0 < length
  swap
  · rw [if_neg hleft, Nat.eq_zero_of_not_pos hleft]
    exact (append_nil out).symm
  rw [if_pos hleft]
  have hchunk : ramChunk offset length ≤ length := Nat.min_le_right _ _
  have hroom : ramChunk offset length ≤ ramPageBytes - offset % ramPageBytes := Nat.min_le_left _ _
  have hpos := ramChunk_pos offset hleft
  generalize ramChunk offset length = chunk at hchunk hroom hpos ⊢
  -- The bytes of a chunk are in one page.
  have hpiece : pageBytes (node.page (offset / ramPageBytes)) (offset % ramPageBytes) chunk =
      (List.range' offset chunk).map node.byteAt := by
    have hbyte : ∀ i ∈ List.range chunk, node.byteAt (offset + i) =
        match node.page (offset / ramPageBytes) with
        | some p => p (offset % ramPageBytes + i)
        | none => 0 := fun i hi => byteAt_chunk (by have := mem_range.1 hi; omega)
    unfold pageBytes
    rw [range'_eq_map_range, range'_eq_map_range, map_map]
    cases hp : node.page (offset / ramPageBytes) with
    | none =>
      simp only [hp] at hbyte
      exact ((map_eq_replicate_iff.2 hbyte).trans (by rw [length_range])).symm
    | some p =>
      simp only [hp] at hbyte
      exact (map_map ..).trans (map_congr_left fun i hi => (hbyte i hi).symm)
  rw [ramReadLoop_eq, hpiece, append_assoc, ← map_append]
  congr 2
  rw [range'_append_1, Nat.add_sub_cancel' hchunk]
termination_by length

theorem ramRead_eq (hkind : node.kind = .file) (offset length : ℕ) :
    ramRead node offset length =
      (.ok, (List.range' offset (min length (node.size - offset))).map node.byteAt) := by
  unfold ramRead
  rw [if_neg (not_not.2 hkind), ramReadLoop_eq, nil_append]
  by_cases hbehind : offset < node.size
  · rw [if_pos hbehind]
  · rw [if_neg hbehind, Nat.sub_eq_zero_of_le (not_lt.1 hbehind), Nat.min_zero]

/-- A write stores the first `moved` bytes of its buffer, and changes no other. -/
theorem ramWrite_stored (fs : AstraVfsRamBackend) (hkind : node.kind = .file)
    (offset : ℕ) (flags : BitVec 32) (maxEnd : ℕ) (buffer : List UInt8) :
    RamStored node (ramStart node offset flags) maxEnd buffer
      (ramWrite memory fs node offset flags maxEnd buffer) ∧
    (ramWrite memory fs node offset flags maxEnd buffer).1.node.kind = .file := by
  have hnone : ∀ status, RamStored node (ramStart node offset flags) maxEnd buffer
      (⟨status, 0, fs, node⟩, ramStart node offset flags) := fun status =>
    ⟨Nat.zero_le _, by simp, by simp, rfl, by simp, fun x => by rw [take_zero, written_nil]⟩
  unfold ramWrite
  rw [if_neg (not_not.2 hkind)]
  dsimp only
  generalize ramStart node offset flags = start at hnone ⊢
  split
  · exact ⟨hnone _, hkind⟩
  split
  · exact ⟨hnone _, hkind⟩
  -- What is left of the buffer in front of the end.
  obtain ⟨left, hleft, hclip, hinput⟩ : ∃ left ≤ buffer.length,
      (left ≠ 0 → start + left ≤ maxEnd) ∧
        (if start < maxEnd ∧ maxEnd - start < buffer.length then buffer.take (maxEnd - start)
        else buffer) = buffer.take left := by
    by_cases hend : start < maxEnd ∧ maxEnd - start < buffer.length
    · exact ⟨maxEnd - start, hend.2.le, fun _ => by omega, if_pos hend⟩
    · exact ⟨buffer.length, le_rfl, fun _ => by omega, by rw [if_neg hend, take_length]⟩
  rw [hinput]
  obtain ⟨more, hle, hmoved, hsize, hsame, hbytes⟩ :=
    ramWriteLoop_spec memory fs node start 0 (buffer.take left)
  generalize ramWriteLoop memory fs node start 0 (buffer.take left) = r at hmoved hsize hsame hbytes ⊢
  obtain ⟨status, moved, fs₁, node₁⟩ := r
  dsimp only at hmoved hsize hsame hbytes ⊢
  rw [Nat.zero_add] at hmoved
  subst hmoved
  rw [length_take, Nat.min_eq_left hleft] at hle
  rw [take_take, Nat.min_eq_left hle] at hbytes
  refine ⟨⟨hle.trans hleft, fun hm => ?_, fun hm => if_pos hm, rfl, ?_, fun x => ?_⟩, ?_⟩
  · change moved ≠ 0 at hm
    change start + moved ≤ maxEnd
    have hend := hclip (by omega)
    omega
  · change (if moved ≠ 0 ∧ node₁.size < start + moved then { node₁ with size := start + moved }
      else node₁).size = if moved = 0 then node.size else max node.size (start + moved)
    rw [← hsize]
    split_ifs with hgrown hzero hzero
    · exact absurd hzero hgrown.1
    · exact (Nat.max_eq_right hgrown.2.le).symm
    · rfl
    · exact (Nat.max_eq_left (not_lt.1 fun h => hgrown ⟨hzero, h⟩)).symm
  · rw [← hbytes x]
    split_ifs <;> rfl
  · split_ifs
    · exact hsame.trans hkind
    · exact hsame.trans hkind

theorem byteAt_none {at_ : ℕ} (h : node.page (at_ / ramPageBytes) = none) : node.byteAt at_ = 0 := by
  unfold AstraVfsRamNode.byteAt
  rw [h]

theorem byteAt_empty (h : node.slots = 0) (at_ : ℕ) : node.byteAt at_ = 0 :=
  byteAt_none (if_neg (by simp [h]))

theorem dropPages_byteAt (node : AstraVfsRamNode) (kept at_ : ℕ) : (node.dropPages kept).byteAt at_ =
    if kept ≤ at_ / ramPageBytes then 0 else node.byteAt at_ := by
  unfold AstraVfsRamNode.byteAt AstraVfsRamNode.page AstraVfsRamNode.dropPages
  dsimp only
  by_cases hslot : at_ / ramPageBytes < node.slots
  · rw [if_pos hslot, if_pos hslot]
    by_cases hkept : kept ≤ at_ / ramPageBytes
    · rw [if_pos ⟨hslot, hkept⟩, if_pos hkept]
    · rw [if_neg fun h => hkept h.2, if_neg hkept]
  · rw [if_neg hslot, if_neg hslot, ite_self]

/-- Nothing is written to a page there is not. -/
theorem fill_none (h : node.page index = none) (at_ : ℕ) :
    (node.fill index within input).byteAt at_ = node.byteAt at_ := by
  unfold AstraVfsRamNode.page at h
  unfold AstraVfsRamNode.byteAt AstraVfsRamNode.page AstraVfsRamNode.fill
  dsimp only
  rcases eq_or_ne (at_ / ramPageBytes) index with he | hne
  · rw [he, update_self]
    split_ifs at h ⊢
    · rw [h]
      rfl
    · rfl
  · rw [update_of_ne hne]

/-- Cutting a file changes what is behind the cut to zero. -/
theorem ramTruncate_byteAt (hkind : node.kind = .file) (size at_ : ℕ) :
    (ramTruncate fs node size).2.2.byteAt at_ =
      if size < node.size ∧ size ≤ at_ then 0 else node.byteAt at_ := by
  unfold ramTruncate
  rw [if_neg (not_not.2 hkind)]
  by_cases hcut : size < node.size
  swap
  · rw [if_neg hcut, if_neg fun h => hcut h.1]
    rfl
  rw [if_pos hcut, if_congr (and_iff_right hcut) rfl rfl]
  dsimp only
  split
  · rw [if_pos (show size ≤ at_ by omega)]
    exact byteAt_empty rfl at_
  obtain ⟨kept, hkept⟩ : ∃ kept, kept = size / ramPageBytes +
      if size % ramPageBytes ≠ 0 then 1 else 0 := ⟨_, rfl⟩
  rw [← hkept]
  have hbytes := dropPages_byteAt node kept at_
  generalize node.dropPages kept = cut at hbytes ⊢
  change (if size % ramPageBytes ≠ 0 ∧ kept - 1 < cut.slots then _ else cut).byteAt at_ = _
  simp only [ramPageBytes] at hkept hbytes ⊢
  by_cases hpart : size % 4096 = 0
  · -- The cut is where a page starts.
    rw [if_neg fun h => h.1 hpart, hbytes]
    rw [if_neg (not_not.2 hpart)] at hkept
    exact if_congr (by omega) rfl rfl
  rw [if_pos hpart] at hkept
  by_cases hpage : (cut.page (kept - 1)).isSome
  · have hslot : kept - 1 < cut.slots := by
      unfold AstraVfsRamNode.page at hpage
      split_ifs at hpage with hslot
      · exact hslot
      · exact absurd hpage (by simp)
    rw [if_pos ⟨hpart, hslot⟩, fill_byteAt hpage (show _ ≤ 4096 by rw [length_replicate]; omega)]
    unfold written
    rw [show (kept - 1) * 4096 + size % 4096 = size by omega]
    by_cases hbehind : size ≤ at_
    · rw [if_pos hbehind, if_pos hbehind, hbytes, List.getElem?_replicate]
      by_cases hlast : at_ - size < 4096 - size % 4096
      · rw [if_pos hlast]
        rfl
      · rw [if_neg hlast, if_pos (by omega)]
        rfl
    · rw [if_neg hbehind, if_neg hbehind, hbytes, if_neg (by omega)]
  · have hnone : cut.page (kept - 1) = none := by simpa using hpage
    have hsame : (if size % 4096 ≠ 0 ∧ kept - 1 < cut.slots then
        cut.fill (kept - 1) (size % 4096) (List.replicate (4096 - size % 4096) 0)
      else cut).byteAt at_ = cut.byteAt at_ := by
      split_ifs
      · exact fill_none hnone at_
      · rfl
    refine hsame.trans ?_
    by_cases hlast : at_ / 4096 = kept - 1
    · rw [byteAt_none (show cut.page (at_ / 4096) = none from hlast ▸ hnone)] at hbytes ⊢
      rw [if_neg (by omega)] at hbytes
      rw [← hbytes, ite_self]
    · rw [hbytes]
      exact if_congr (by omega) rfl rfl

theorem ramOpenFound_byteAt (flags : BitVec 32) (at_ : ℕ) :
    (ramOpenFound fs node flags).2.2.byteAt at_ =
      if (ramOpenFound fs node flags).1 = .ok ∧ flags &&& astraVfsOpenTruncate ≠ 0 then 0
      else node.byteAt at_ := by
  have hrefused : ∀ status : AstraVfsStatus, status ≠ .ok → node.byteAt at_ =
      if status = .ok ∧ flags &&& astraVfsOpenTruncate ≠ 0 then 0 else node.byteAt at_ :=
    fun status hs => (if_neg fun h => hs h.1).symm
  unfold ramOpenFound
  dsimp only
  split
  · exact hrefused _ (by simp)
  split
  · exact hrefused _ (by simp)
  split
  · exact hrefused _ (by simp)
  split
  · exact hrefused _ (by simp)
  split
  · exact hrefused _ (by simp)
  split
  · rename_i htruncate
    split
    · exact hrefused _ (by simp)
    · rw [if_pos ⟨rfl, htruncate⟩]
      exact byteAt_empty rfl at_
  · rename_i htruncate
    rw [if_neg fun h => htruncate h.2]
    rfl

/-- The bytes of the file are those its changes have left. -/
structure RamTracked (node : AstraVfsRamNode) (changes : List RamChange) : Prop where
  kind : node.kind = .file
  bytes : ∀ at_, node.byteAt at_ = lastWritten changes at_

theorem RamTracked.step {changes : List RamChange} (h : RamTracked node changes) (u : RamUse) :
    RamTracked (node.use u) (u.note node changes) := by
  have hbytes : node.byteAt = lastWritten changes := funext h.bytes
  obtain ⟨memory, fs, call⟩ := u
  cases call with
  | write offset flags maxEnd buffer =>
    obtain ⟨hstored, hkind⟩ := ramWrite_stored memory fs h.kind offset flags maxEnd buffer
    exact ⟨hkind, fun at_ => (hstored.bytes at_).trans (by rw [hbytes]; rfl)⟩
  | truncate size =>
    refine ⟨?_, fun at_ => ?_⟩
    · change (ramTruncate fs node size).2.2.kind = _
      unfold ramTruncate
      dsimp only
      split_ifs <;> exact h.kind
    · refine (ramTruncate_byteAt h.kind size at_).trans ?_
      unfold RamUse.note
      dsimp only
      rw [hbytes]
      by_cases hcut : size < node.size
      · rw [if_pos hcut, if_congr (and_iff_right hcut) rfl rfl]
        rfl
      · rw [if_neg hcut, if_neg fun hc => hcut hc.1]
  | reopen flags =>
    refine ⟨?_, fun at_ => ?_⟩
    · change (ramOpenFound fs node flags).2.2.kind = _
      unfold ramOpenFound
      dsimp only
      split_ifs <;> exact h.kind
    · refine (ramOpenFound_byteAt flags at_).trans ?_
      unfold RamUse.note
      dsimp only
      rw [hbytes]
      split_ifs
      · exact (if_pos (Nat.zero_le _)).symm
      · rfl

theorem uses_ramTracked : ∀ (us : List RamUse) {node : AstraVfsRamNode} {changes : List RamChange},
    RamTracked node changes → RamTracked (node.uses us) (ramChanges node changes us)
  | [], _, _, h => h
  | u :: us, _, _, h => uses_ramTracked us (h.step u)

end

end Astra
