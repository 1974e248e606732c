import AstraKernel.Compact
import AstraKernel.Vfs.Normalise

/-!
# The assign table

`vfs_assign.c`: the names a process may use and the authority each stands for. A binding is an entry
of one growing array; a union is two entries of one name, tried in the order they stand in. Names
are made uppercase on the way in and then compared exactly; a root is kept normalised. Each
allocation may fail.
-/

namespace Astra

open Function

abbrev astraAssignNameMax : ℕ := 32
/-- `sizeof(AstraAssign)`. -/
abbrev astraAssignSize : ℕ := 72
/-- `UINT32_MAX`. -/
abbrev assignUint32Max : ℕ := 0xffffffff
abbrev astraRightRead : UInt32 := 1
abbrev astraRightWrite : UInt32 := 2

structure AstraVolumeReference where
  epoch : UInt64
  id : UInt64
  generation : UInt64
  deriving DecidableEq

structure AstraAssign where
  name : CString
  root : CString
  handle : UInt32
  rights : UInt32
  volume : AstraVolumeReference
  broker : UInt32
  deriving DecidableEq

structure AstraAssignTable where
  entries : ℕ → AstraAssign
  count : ℕ
  capacity : ℕ

/-- Which allocations of one binding operation succeed. -/
structure AssignHeap where
  path : Bool
  entries : Bool
  root : Bool

def CString.empty : CString := ⟨[], by simp⟩

/-- `(AstraAssign){0}`. -/
def AstraAssign.zero : AstraAssign := ⟨.empty, .empty, 0, 0, ⟨0, 0, 0⟩, 0⟩

def astraAssignTableInit : AstraAssignTable := ⟨fun _ => .zero, 0, 0⟩

def astraAsciiUpper (value : UInt8) : UInt8 :=
  if 0x61 ≤ value ∧ value ≤ 0x7a then value - 0x20 else value

def nameCharacter (value : UInt8) : Bool :=
  (0x41 ≤ value ∧ value ≤ 0x5a) ∨ (0x30 ≤ value ∧ value ≤ 0x39) ∨ value = 0x5f

/-- The name in uppercase, where it is one. -/
def canonical : Option CString → Option CString
  | none => none
  | some name =>
    if name.bytes = [] then none
    else if name.bytes.length ≥ astraAssignNameMax then none
    else if (name.bytes.map astraAsciiUpper).all nameCharacter then
      some (.ofBytes (name.bytes.map astraAsciiUpper))
    else none

/-- Room for `minimum` entries: the capacity is doubled, from eight on. -/
def assignReserve (heap : AssignHeap) (table : AstraAssignTable) (minimum : ℕ) :
    AstraVfsStatus × AstraAssignTable :=
  if minimum ≤ table.capacity then (.ok, table)
  else match doubleTo (assignUint32Max / 2) 33 (if table.capacity = 0 then 8 else table.capacity)
      minimum with
    | none => (.limit, table)
    | some capacity =>
      if capacity > assignUint32Max / astraAssignSize then (.limit, table)
      else if heap.entries then (.ok, { table with capacity := capacity })
      else (.limit, table)

/-- A member of the name, where `member` others stand before it. -/
def memberCanonical (table : AstraAssignTable) (name : CString) (member : ℕ) :
    Option AstraAssign :=
  nthWhere (fun entry => entry.name = name) member table.count 0 0 table.entries

def astraAssignMember (table : AstraAssignTable) (name : Option CString) (member : ℕ) :
    Option AstraAssign :=
  match canonical name with
  | some name => memberCanonical table name member
  | none => none

def astraAssignLookup (table : AstraAssignTable) (name : Option CString) : Option AstraAssign :=
  astraAssignMember table name 0

/-- Every entry of the kind goes, and the rest shift down. -/
def removeMembers (table : AstraAssignTable) (gone : AstraAssign → Bool) :
    AstraVfsStatus × AstraAssignTable :=
  let (entries, count, removed) := compact gone table.count 0 0 table.entries
  (if removed ≠ 0 then .ok else .notFound, { table with entries := entries, count := count })

def astraAssignUnbind (table : AstraAssignTable) (name : Option CString) :
    AstraVfsStatus × AstraAssignTable :=
  match canonical name with
  | none => (.invalid, table)
  | some name => removeMembers table fun entry => entry.name = name

def astraVfsAssignRetireHandle (table : AstraAssignTable) (handle : UInt32) :
    AstraVfsStatus × AstraAssignTable :=
  if handle = 0 then (.invalid, table)
  else removeMembers table fun entry => entry.handle = handle

/-- The root as it is kept, in the storage the call has opened for it. -/
def canonicalRoot (heap : AssignHeap) (root : CString) : Except AstraVfsStatus CString :=
  if heap.path = false then .error .limit
  else if (astraVfsPathMeasure (some root)).1 ≠ .ok then
    .error (astraVfsPathMeasure (some root)).1
  else match astraPathNormalise root astraVfsPathMax with
    | .error status => .error (if status = .nameTooLong then status else .invalid)
    | .ok text =>
      if text.length ≥ astraVfsPathMax - 1 then .error .nameTooLong else .ok (.ofBytes text)

/-- `entries[count++] = entry`. -/
def AstraAssignTable.push (table : AstraAssignTable) (entry : AstraAssign) : AstraAssignTable :=
  { table with entries := update table.entries table.count entry, count := table.count + 1 }

/-- Room for one more entry. -/
def reserveNext (heap : AssignHeap) (table : AstraAssignTable) :
    AstraVfsStatus × AstraAssignTable :=
  if table.count = assignUint32Max then (.limit, table) else assignReserve heap table (table.count + 1)

/-- The room is reserved, and the root allocated, before anything is removed. -/
def astraAssignBind (heap : AssignHeap) (table : AstraAssignTable) (name : Option CString)
    (handle rights : UInt32) (root : Option CString) : AstraVfsStatus × AstraAssignTable :=
  match root, canonical name with
  | some root, some canonicalName =>
    if handle = 0 ∨ rights = 0 then (.invalid, table)
    else match canonicalRoot heap root with
      | .error status => (status, table)
      | .ok canonicalRoot =>
        let (status, table) :=
          if astraAssignLookup table (some canonicalName) = none then reserveNext heap table
          else (.ok, table)
        if status ≠ .ok then (.limit, table)
        else if heap.root = false then (.limit, table)
        else
          let table := (astraAssignUnbind table (some canonicalName)).2
          (.ok, table.push { AstraAssign.zero with
            name := canonicalName, root := canonicalRoot, handle := handle, rights := rights })
  | _, _ => (.invalid, table)

def astraAssignBindVolume (heap : AssignHeap) (table : AstraAssignTable) (name : Option CString)
    (reference : AstraVolumeReference) (broker rights : UInt32) :
    AstraVfsStatus × AstraAssignTable :=
  if broker = 0 ∨ reference.epoch = 0 ∨ reference.id = 0 ∨ reference.generation = 0 ∨
      rights &&& astraRightRead = 0 ∨ rights &&& ~~~(astraRightRead ||| astraRightWrite) ≠ 0 then
    (.invalid, table)
  else match canonical name with
    | none => (.invalid, table)
    | some canonicalName =>
      if astraAssignLookup table name ≠ none then (.exists_, table)
      else
        let (status, table) := reserveNext heap table
        if status ≠ .ok then (.limit, table)
        else if heap.root = false then (.limit, table)
        else (.ok, table.push { AstraAssign.zero with
          name := canonicalName, rights := rights, volume := reference, broker := broker })

def astraAssignJoin (heap : AssignHeap) (table : AstraAssignTable) (name : Option CString)
    (handle rights : UInt32) (root : Option CString) : AstraVfsStatus × AstraAssignTable :=
  match root, canonical name with
  | some root, some canonicalName =>
    if handle = 0 ∨ rights = 0 then (.invalid, table)
    else match canonicalRoot heap root with
      | .error status => (status, table)
      | .ok canonicalRoot =>
        if astraAssignMember table (some canonicalName) 0 = none then (.notFound, table)
        else
          let (status, table) := reserveNext heap table
          if status ≠ .ok then (.limit, table)
          else if heap.root = false then (.limit, table)
          else (.ok, table.push { AstraAssign.zero with
            name := canonicalName, root := canonicalRoot, handle := handle, rights := rights })
  | _, _ => (.invalid, table)

abbrev astraCapabilityNameMax : ℕ := 16
abbrev astraCapabilityRootMax : ℕ := 64
abbrev astraStartupCapabilityMax : ℕ := 43
abbrev astraCapabilityFlagNamespace : UInt32 := 1
abbrev astraCapabilityFlagRead : UInt32 := 2
abbrev astraCapabilityFlagWrite : UInt32 := 4

/-- A record of the startup table; its texts are fields of a fixed width. -/
structure AstraStartupCapability where
  name : List UInt8
  handle : UInt32
  flags : UInt32
  root : List UInt8

/-- A field of `width` bytes as a string, where it is terminated. -/
def fieldText (field : List UInt8) (width : ℕ) : Option CString :=
  if ((field.take width).takeWhile (· ≠ 0)).length = width then none
  else some (.ofBytes (field.take width))

def capabilityRights (flags : UInt32) : UInt32 :=
  (if flags &&& astraCapabilityFlagRead ≠ 0 then astraRightRead else 0) |||
    (if flags &&& astraCapabilityFlagWrite ≠ 0 then astraRightWrite else 0)

/-- One record: the first of a name binds and every later one joins. -/
def seedCapability (heap : AssignHeap) (replacement : AstraAssignTable)
    (capability : AstraStartupCapability) : AstraVfsStatus × AstraAssignTable :=
  if capability.flags &&& astraCapabilityFlagNamespace = 0 then (.ok, replacement)
  else match fieldText capability.name astraCapabilityNameMax,
      fieldText capability.root astraCapabilityRootMax with
    | some name, some root =>
      if astraAssignLookup replacement (some name) = none then
        astraAssignBind heap replacement (some name) capability.handle
          (capabilityRights capability.flags) (some root)
      else astraAssignJoin heap replacement (some name) capability.handle
        (capabilityRights capability.flags) (some root)
    | _, _ => (.ok, replacement)

/-- The loop, with the allocations of each round; only running out of memory ends it. -/
def seedFrom (heap : ℕ → AssignHeap) : ℕ → List AstraStartupCapability → AstraAssignTable →
    Option AstraAssignTable
  | _, [], replacement => some replacement
  | i, capability :: rest, replacement =>
    let (status, replacement) := seedCapability (heap i) replacement capability
    if status = .limit then none else seedFrom heap (i + 1) rest replacement

def astraAssignSeed (heap : ℕ → AssignHeap) (table : AstraAssignTable)
    (capabilities : List AstraStartupCapability) : AstraVfsStatus × AstraAssignTable :=
  if capabilities.length > astraStartupCapabilityMax then (.invalid, table)
  else match seedFrom heap 0 capabilities astraAssignTableInit with
    | none => (.limit, table)
    | some replacement => (.ok, replacement)

def cloneEntry (heap : AssignHeap) (replacement : AstraAssignTable) (entry : AstraAssign) :
    AstraVfsStatus × AstraAssignTable :=
  if entry.volume.id ≠ 0 then
    astraAssignBindVolume heap replacement (some entry.name) entry.volume entry.broker entry.rights
  else if astraAssignLookup replacement (some entry.name) ≠ none then
    astraAssignJoin heap replacement (some entry.name) entry.handle entry.rights (some entry.root)
  else astraAssignBind heap replacement (some entry.name) entry.handle entry.rights
    (some entry.root)

def cloneFrom (heap : ℕ → AssignHeap) : ℕ → List AstraAssign → AstraAssignTable →
    Except AstraVfsStatus AstraAssignTable
  | _, [], replacement => .ok replacement
  | i, entry :: rest, replacement =>
    let (status, replacement) := cloneEntry (heap i) replacement entry
    if status ≠ .ok then .error status else cloneFrom heap (i + 1) rest replacement

def astraVfsAssignClone (heap : ℕ → AssignHeap) (target source : AstraAssignTable) :
    AstraVfsStatus × AstraAssignTable :=
  match cloneFrom heap 0 (listed source.entries source.count) astraAssignTableInit with
  | .error status => (status, target)
  | .ok replacement => (.ok, replacement)

/-- The path as its assign's provider is given it, with the assign: the mount-absolute prefix and
then the rest, which is normalised, or with `raw` only collapsed, behind it. -/
def assignResolve (table : AstraAssignTable) (path : CString) (rights : UInt32) (member : ℕ)
    (capacity : ℕ) (raw : Bool) : Except AstraVfsStatus (List UInt8 × AstraAssign) :=
  if capacity < 2 then .error .invalid
  else if (astraVfsPathMeasure (some path)).1 ≠ .ok then
    .error (astraVfsPathMeasure (some path)).1
  else match path.bytes with
  | [] => .error .invalid
  | c :: path =>
    let component := path.takeWhile (· ≠ slash)
    let rest := (path.dropWhile (· ≠ slash)).drop 1
    if c ≠ slash then .error .invalid
    else if 0x3a ∈ component ∨ component.length ≥ astraAssignNameMax then .error .invalid
    else if component = [] then .error .invalid
    else match memberCanonical table (.ofBytes (component.map astraAsciiUpper)) member with
    | none => .error .notFound
    | some found =>
      if found.rights &&& rights ≠ rights then .error .access
      else if found.root.bytes ≠ [] ∧ found.root.bytes.length + 2 ≥ capacity then .error .invalid
      else
        let head := if found.root.bytes = [] then [slash] else slash :: found.root.bytes ++ [slash]
        let tail :=
          if raw then astraPathCollapse (.ofBytes rest) (capacity - head.length)
          else astraPathNormalise (.ofBytes rest) (capacity - head.length)
        match tail with
        | .error status => .error status
        | .ok tail =>
          -- An empty rest names the assign's own root, which carries no separator.
          if tail = [] ∧ head.length > 1 then .ok (head.dropLast, found)
          else .ok (head ++ tail, found)

def astraAssignResolve (table : AstraAssignTable) (path : CString) (rights : UInt32)
    (member capacity : ℕ) : Except AstraVfsStatus (List UInt8 × AstraAssign) :=
  assignResolve table path rights member capacity false

def astraAssignResolveRaw (table : AstraAssignTable) (path : CString) (rights : UInt32)
    (member capacity : ℕ) : Except AstraVfsStatus (List UInt8 × AstraAssign) :=
  assignResolve table path rights member capacity true

end Astra
