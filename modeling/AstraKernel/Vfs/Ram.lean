import AstraKernel.Vfs.Service

/-!
# Files in memory

`ram.c`: the bytes of a file are in pages that are made when they are first written, and the vector
of the pages grows by doubling. What is not in a page is zero. Pages are charged to the backend, and
memory may be refused at any time. Everything runs with the lock held, for pointers that are given.
-/

namespace Astra

open Function

abbrev ramPageBytes : ℕ := 4096
abbrev ramPointerBytes : ℕ := 4

abbrev astraVfsOpenDirectory : BitVec 32 := 0x010

/-- `allocations` counts how often memory has been asked for. -/
structure AstraVfsRamBackend where
  maxBytes : BitVec 32
  usedBytes : BitVec 32
  allocations : ℕ

/-- A node, of which `pages` is the vector with `slots` places. -/
structure AstraVfsRamNode where
  pages : ℕ → Option (ℕ → UInt8)
  size : ℕ
  slots : ℕ
  opens : ℕ
  kind : AstraVfsKind

/-- What `create` makes of a node that is a file. -/
def newRamFile : AstraVfsRamNode := ⟨fun _ => none, 0, 0, 0, .file⟩

/-- Whether there is room for so many bytes, with the backend then. `memory` tells which of the
allocations succeed. -/
def charged (memory : ℕ → Bool) (fs : AstraVfsRamBackend) (bytes : ℕ) : Bool × AstraVfsRamBackend :=
  if bytes = 0 ∨ (fs.maxBytes - fs.usedBytes).toNat < bytes then (false, fs)
  else if memory fs.allocations = false then (false, { fs with allocations := fs.allocations + 1 })
  else (true, { fs with allocations := fs.allocations + 1
                        usedBytes := fs.usedBytes + BitVec.ofNat 32 bytes })

def AstraVfsRamBackend.released (fs : AstraVfsRamBackend) (bytes : ℕ) : AstraVfsRamBackend :=
  { fs with usedBytes := fs.usedBytes - BitVec.ofNat 32 bytes }

/-- The loop of `grow_slots`, which doubles at most as often as a word has bits. -/
def grownCapacity (required : ℕ) : ℕ → ℕ → Option ℕ
  | 0, _ => none
  | fuel + 1, capacity =>
    if required ≤ capacity then some capacity
    else if 2 ^ 31 - 1 < capacity then none
    else grownCapacity required fuel (2 * capacity)

def growSlots (memory : ℕ → Bool) (fs : AstraVfsRamBackend) (node : AstraVfsRamNode)
    (required : ℕ) : AstraVfsStatus × AstraVfsRamBackend × AstraVfsRamNode :=
  if required ≤ node.slots then (.ok, fs, node)
  else
    match grownCapacity required 33 (if node.slots = 0 then 1 else node.slots) with
    | none => (.noSpace, fs, node)
    | some capacity =>
      if 2 ^ 32 - 1 < capacity * ramPointerBytes then (.noSpace, fs, node)
      else
        match charged memory fs (capacity * ramPointerBytes) with
        | (false, fs) => (.noSpace, fs, node)
        | (true, fs) =>
          (.ok, fs.released (node.slots * ramPointerBytes),
            { node with
              pages := fun i => if i < node.slots then node.pages i else none
              slots := capacity })

namespace AstraVfsRamNode

variable (node : AstraVfsRamNode)

/-- The page of an index, where the vector has one. -/
def page (index : ℕ) : Option (ℕ → UInt8) :=
  if index < node.slots then node.pages index else none

/-- The bytes `input`, written from `within` of a page on. -/
def fill (index within : ℕ) (input : List UInt8) : AstraVfsRamNode :=
  { node with pages := update node.pages index ((node.pages index).map fun p i =>
      if within ≤ i then (input[i - within]?).getD (p i) else p i) }

/-- The pages from `kept` on are given back. -/
def dropPages (kept : ℕ) : AstraVfsRamNode :=
  { node with pages := fun i => if i < node.slots ∧ kept ≤ i then none else node.pages i }

def pagesFrom (kept : ℕ) : ℕ :=
  ((List.range node.slots).filter fun i => kept ≤ i ∧ (node.pages i).isSome).length

/-- The vector is given back. -/
def dropVector : AstraVfsRamNode := { node with pages := fun _ => none, slots := 0 }

end AstraVfsRamNode

/-- The part of the loop of `ram_write` that has the page of an index made. -/
def ramPage (memory : ℕ → Bool) (fs : AstraVfsRamBackend) (node : AstraVfsRamNode) (index : ℕ) :
    AstraVfsStatus × AstraVfsRamBackend × AstraVfsRamNode :=
  if (node.page index).isNone then
    match charged memory fs ramPageBytes with
    | (false, fs) => (.noSpace, fs, node)
    | (true, fs) =>
      match growSlots memory fs node (index + 1) with
      | (.ok, fs, node) =>
        (.ok, fs, { node with pages := update node.pages index (some fun _ => 0) })
      | (status, fs, node) => (status, fs.released ramPageBytes, node)
  else growSlots memory fs node (index + 1)

/-- How many of the bytes left go to the page that holds `at_`. -/
def ramChunk (at_ left : ℕ) : ℕ := min (ramPageBytes - at_ % ramPageBytes) left

theorem ramChunk_pos (at_ : ℕ) {left : ℕ} (h : 0 < left) : 0 < ramChunk at_ left :=
  Nat.lt_min.2 ⟨Nat.sub_pos_of_lt (Nat.mod_lt _ (Nat.zero_lt_succ _)), h⟩

/-- What `ram_read` takes of a page; where there is none, zeros. -/
def pageBytes (page : Option (ℕ → UInt8)) (within chunk : ℕ) : List UInt8 :=
  match page with
  | some p => (List.range' within chunk).map p
  | none => List.replicate chunk 0

/-- The loop of `ram_read`. -/
def ramReadLoop (node : AstraVfsRamNode) (offset length : ℕ) (out : List UInt8) : List UInt8 :=
  if 0 < length then
    let chunk := ramChunk offset length
    ramReadLoop node (offset + chunk) (length - chunk)
      (out ++ pageBytes (node.page (offset / ramPageBytes)) (offset % ramPageBytes) chunk)
  else out
termination_by length
decreasing_by exact Nat.sub_lt ‹_› (ramChunk_pos _ ‹_›)

def ramRead (node : AstraVfsRamNode) (offset length : ℕ) : AstraVfsStatus × List UInt8 :=
  if node.kind ≠ .file then (.isDir, [])
  else
    (.ok, ramReadLoop node offset (if offset < node.size then min length (node.size - offset) else 0)
      [])

/-- How the loop of `ram_write` ends: the status, and how many bytes were moved. -/
structure RamWritten where
  status : AstraVfsStatus
  moved : ℕ
  fs : AstraVfsRamBackend
  node : AstraVfsRamNode

/-- The loop of `ram_write` with `input` left, of which `done` bytes are written. -/
def ramWriteLoop (memory : ℕ → Bool) (fs : AstraVfsRamBackend) (node : AstraVfsRamNode)
    (at_ done : ℕ) (input : List UInt8) : RamWritten :=
  if 0 < input.length then
    if 2 ^ 32 - 1 ≤ at_ / ramPageBytes then ⟨.noSpace, done, fs, node⟩
    else
      let chunk := ramChunk at_ input.length
      match ramPage memory fs node (at_ / ramPageBytes) with
      | (.ok, fs, node) =>
        ramWriteLoop memory fs
          (node.fill (at_ / ramPageBytes) (at_ % ramPageBytes) (input.take chunk)) (at_ + chunk)
          (done + chunk) (input.drop chunk)
      | (status, fs, node) => ⟨status, done, fs, node⟩
  else ⟨.ok, done, fs, node⟩
termination_by input.length
decreasing_by
  rw [List.length_drop]
  exact Nat.sub_lt ‹0 < input.length› (ramChunk_pos _ ‹_›)

/-- Where a write starts. -/
def ramStart (node : AstraVfsRamNode) (offset : ℕ) (flags : BitVec 32) : ℕ :=
  if flags &&& astraVfsWriteAppend ≠ 0 then node.size else offset

/-- The answer of a write, with its position behind it. -/
def ramWrite (memory : ℕ → Bool) (fs : AstraVfsRamBackend) (node : AstraVfsRamNode) (offset : ℕ)
    (flags : BitVec 32) (maxEnd : ℕ) (buffer : List UInt8) : RamWritten × ℕ :=
  let start := ramStart node offset flags
  if node.kind ≠ .file then (⟨.isDir, 0, fs, node⟩, start)
  else if 2 ^ 64 - 1 - buffer.length < start then (⟨.invalid, 0, fs, node⟩, start)
  else if buffer.length ≠ 0 ∧ maxEnd ≤ start then (⟨.fileTooLarge, 0, fs, node⟩, start)
  else
    let input := if start < maxEnd ∧ maxEnd - start < buffer.length then
        buffer.take (maxEnd - start)
      else buffer
    let r := ramWriteLoop memory fs node start 0 input
    let node := if r.moved ≠ 0 ∧ r.node.size < start + r.moved then
        { r.node with size := start + r.moved }
      else r.node
    (⟨if r.moved ≠ 0 then .ok else r.status, r.moved, r.fs, node⟩, start + r.moved)

def ramTruncate (fs : AstraVfsRamBackend) (node : AstraVfsRamNode) (size : ℕ) :
    AstraVfsStatus × AstraVfsRamBackend × AstraVfsRamNode :=
  if node.kind ≠ .file then (.isDir, fs, node)
  else if size < node.size then
    let kept := size / ramPageBytes + if size % ramPageBytes ≠ 0 then 1 else 0
    let fs := fs.released (node.pagesFrom kept * ramPageBytes)
    let node := node.dropPages kept
    let node := if size % ramPageBytes ≠ 0 ∧ kept - 1 < node.slots then
        node.fill (kept - 1) (size % ramPageBytes)
          (List.replicate (ramPageBytes - size % ramPageBytes) 0)
      else node
    if size = 0 then
      (.ok, fs.released (node.slots * ramPointerBytes), { node.dropVector with size := size })
    else (.ok, fs, { node with size := size })
  else (.ok, fs, { node with size := size })

/-- `open_from` from where the node has been found on. -/
def ramOpenFound (fs : AstraVfsRamBackend) (node : AstraVfsRamNode) (flags : BitVec 32) :
    AstraVfsStatus × AstraVfsRamBackend × AstraVfsRamNode :=
  let new := astraVfsOpenCreate ||| astraVfsOpenExclusive
  if flags &&& new = new then (.exists_, fs, node)
  else if flags &&& astraVfsOpenDirectory ≠ 0 ∧ node.kind ≠ .directory then (.notDir, fs, node)
  else if flags &&& astraVfsOpenDirectory = 0 ∧ node.kind = .directory ∧
      flags &&& (astraVfsOpenWrite ||| astraVfsOpenTruncate) ≠ 0 then (.isDir, fs, node)
  else if node.kind = .symlink then (.loop, fs, node)
  else if node.opens = 2 ^ 32 - 1 then (.limit, fs, node)
  else if flags &&& astraVfsOpenTruncate ≠ 0 then
    if node.kind ≠ .file then (.isDir, fs, node)
    else
      (.ok, fs.released (node.pagesFrom 0 * ramPageBytes + node.slots * ramPointerBytes),
        { node.dropVector with size := 0, opens := node.opens + 1 })
  else (.ok, fs, { node with opens := node.opens + 1 })

end Astra
