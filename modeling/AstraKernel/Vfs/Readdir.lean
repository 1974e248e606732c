import AstraKernel.BigEndian
import AstraKernel.Vfs.Normalise

/-!
# Listing a directory by pages

The service packs as many entries as a page takes, a header and a name each, and says where the next
page starts (`vfs_service_core.c`); the client unpacks them (`vfs_client.c`). What a backend answers
for a cookie is given; zero starts a listing and ends it.
-/

namespace Astra

abbrev astraVfsDirentHeader : ℕ := 64
abbrev astraVfsBulkMax : ℕ := 0x08000000
abbrev astraVfsMetaVolume : UInt32 := 1
abbrev astraVfsMetaInode : UInt32 := 2
abbrev astraVfsMetaGeneration : UInt32 := 4
abbrev astraVfsMetaIdentity : UInt32 :=
  astraVfsMetaVolume ||| astraVfsMetaInode ||| astraVfsMetaGeneration

structure AstraVfsNodeMeta where
  valid : UInt32
  identityReserved : UInt32
  volume : UInt64
  inode : UInt64
  generation : UInt64
  deriving DecidableEq

/-- `mtime` is the signed number's bits. -/
structure AstraVfsNodeInfo where
  size : UInt64
  mtime : UInt64
  uid : UInt32
  gid : UInt32
  kind : UInt16
  mode : UInt16
  nlink : UInt16
  metadata : AstraVfsNodeMeta
  deriving DecidableEq

structure AstraVfsDirEntry where
  name : List UInt8
  info : AstraVfsNodeInfo
  deriving DecidableEq

/-- What the backend answers for one cookie; `name` is what it has left in the buffer. -/
structure ReaddirAnswer where
  status : AstraVfsStatus
  name : List UInt8
  info : AstraVfsNodeInfo
  next : UInt64

/-- The operations of a backend on one directory; packing a page of its own is optional. -/
structure AstraVfsBackend where
  readdir : UInt64 → ReaddirAnswer
  readdirBatch : Option (UInt64 → ℕ → ℕ → AstraVfsStatus × List UInt8 × UInt64)

/-- The widths of a header's fields: kind, mode, links, name length, zero, user, group, size,
modification time, valid mask, zero, volume, inode, generation. -/
def direntLayout : List ℕ := [2, 2, 2, 1, 1, 4, 4, 8, 8, 4, 4, 8, 8, 8]

/-- A field of the identity, where the mask has it. -/
def identityField (valid flag : UInt32) (field : UInt64) : UInt64 :=
  if valid &&& flag ≠ 0 then field else 0

def direntRecord (info : AstraVfsNodeInfo) (name : List UInt8) : List UInt8 :=
  let valid := info.metadata.valid
  storeFields direntLayout [info.kind.toNat, info.mode.toNat, info.nlink.toNat, name.length % 256, 0,
    info.uid.toNat, info.gid.toNat, info.size.toNat, info.mtime.toNat,
    (valid &&& astraVfsMetaIdentity).toNat, 0,
    (identityField valid astraVfsMetaVolume info.metadata.volume).toNat,
    (identityField valid astraVfsMetaInode info.metadata.inode).toNat,
    (identityField valid astraVfsMetaGeneration info.metadata.generation).toNat] ++ name

/-- The bytes before the first NUL of the name buffer, or all of them. -/
def bufferName (buffer : List UInt8) : List UInt8 :=
  (buffer.take astraVfsNameMax).takeWhile (· ≠ 0)

/-- The loop, with `left` entries still allowed and `entries` of them packed into `used`. -/
def readdirFrom (backend : AstraVfsBackend) (capacity : ℕ) :
    ℕ → ℕ → UInt64 → List UInt8 → Except AstraVfsStatus (List UInt8 × UInt64)
  | 0, _, cursor, used => .ok (used, cursor)
  | left + 1, entries, cursor, used =>
    let answer := backend.readdir cursor
    let name := bufferName answer.name
    if answer.status = .notFound then
      if entries = 0 then .error .notFound else .ok (used, 0)
    else if answer.status ≠ .ok then .error answer.status
    else if name.length = 0 ∨ name.length = astraVfsNameMax ∨ answer.next = cursor ∨
        astraUtf8Validate name = false then .error .protocol
    else if astraVfsDirentHeader + name.length > capacity - used.length then
      if entries = 0 then .error .bufferTooSmall else .ok (used, cursor)
    else
      let used := used ++ direntRecord answer.info name
      -- The cursor that ends a listing.
      if answer.next = 0 then .ok (used, 0)
      else readdirFrom backend capacity left (entries + 1) answer.next used

/-- The status, the bytes used and the next cursor. -/
def astraVfsBackendReaddirInto (backend : AstraVfsBackend) (path : Option CString)
    (cursor : UInt64) (entryLimit capacity : ℕ) : AstraVfsStatus × List UInt8 × UInt64 :=
  if (astraVfsPathMeasure path).1 ≠ .ok ∨ entryLimit = 0 ∨ capacity < astraVfsDirentHeader + 1 then
    (.invalid, [], cursor)
  else match backend.readdirBatch with
  | some batch => batch cursor entryLimit capacity
  | none =>
    match readdirFrom backend capacity entryLimit 0 cursor [] with
    | .error status => (status, [], cursor)
    | .ok (used, next) => (.ok, used, next)

/-- The record at an offset, and where the next one is; none where a byte is read that is not
there. -/
def direntAt (payload : List UInt8) (count offset : ℕ) :
    Option (Except AstraVfsStatus (AstraVfsDirEntry × ℕ)) :=
  match loadFields payload offset direntLayout with
  | some [kind, mode, nlink, length, reserved, uid, gid, size, mtime, valid, identityReserved,
      volume, inode, generation] =>
    let mask := UInt32.ofNat valid
    if reserved ≠ 0 then some (.error .protocol)
    else if mask &&& ~~~astraVfsMetaIdentity ≠ 0 ∨ identityReserved ≠ 0 ∨
        (mask &&& astraVfsMetaVolume = 0 ∧ volume ≠ 0) ∨
        (mask &&& astraVfsMetaInode = 0 ∧ inode ≠ 0) ∨
        (mask &&& astraVfsMetaGeneration = 0 ∧ generation ≠ 0) then some (.error .protocol)
    else if length = 0 ∨ length ≥ astraVfsNameMax ∨
        length > count - (offset + astraVfsDirentHeader) then some (.error .protocol)
    else match loadBytes payload (offset + astraVfsDirentHeader) length with
    | none => none
    | some name =>
      if astraUtf8Validate name = false then some (.error .protocol)
      else some (.ok (⟨name, ⟨UInt64.ofNat size, UInt64.ofNat mtime, UInt32.ofNat uid,
        UInt32.ofNat gid, UInt16.ofNat kind, UInt16.ofNat mode, UInt16.ofNat nlink,
        ⟨mask, UInt32.ofNat identityReserved, UInt64.ofNat volume, UInt64.ofNat inode,
          UInt64.ofNat generation⟩⟩⟩, offset + astraVfsDirentHeader + length))
  | _ => none

/-- `while (at < count)`; every round takes a byte at least, so the count is fuel enough. -/
def direntsFrom (payload : List UInt8) (count capacity : ℕ) :
    ℕ → ℕ → List AstraVfsDirEntry → Option (Except AstraVfsStatus (List AstraVfsDirEntry))
  | 0, offset, found => if offset < count then none else some (.ok found)
  | fuel + 1, offset, found =>
    if offset < count then
      if found.length = capacity ∨ count - offset < astraVfsDirentHeader then
        some (.error .protocol)
      else match direntAt payload count offset with
      | none => none
      | some (.error status) => some (.error status)
      | some (.ok (entry, offset)) => direntsFrom payload count capacity fuel offset (found ++ [entry])
    else some (.ok found)

/-- What an exchange leaves: the reply's status, count and cursor, and the storage for the result. -/
structure ReaddirReply where
  status : AstraVfsStatus
  count : ℕ
  cursor : UInt64
  resultBytes : List UInt8

/-- `stored` says whether the storage for the result could be had. -/
def readdirBatch (path : Option CString) (stored : Bool) (capacity : ℕ) (reply : ReaddirReply) :
    Option (Except AstraVfsStatus (List AstraVfsDirEntry × UInt64)) :=
  let record := astraVfsDirentHeader + astraVfsNameMax - 1
  if path ≠ none ∧ (astraVfsPathMeasure path).1 ≠ .ok then some (.error (astraVfsPathMeasure path).1)
  else if capacity = 0 then some (.error .invalid)
  else if capacity > astraVfsBulkMax / record then some (.error .limit)
  else if stored = false then some (.error .limit)
  else if reply.status ≠ .ok then some (.error reply.status)
  else if reply.count > capacity * record then some (.error .protocol)
  else match direntsFrom reply.resultBytes reply.count capacity reply.count 0 [] with
  | none => none
  | some (.error status) => some (.error status)
  | some (.ok found) =>
    if found.length = 0 then some (.error .protocol) else some (.ok (found, reply.cursor))

/-- The listing of a whole directory: pages from the cursor on until it is zero or there is nothing
there. `none` while it is not at an end, or where a page reads what is not there. -/
def listFrom (backend : AstraVfsBackend) (path : CString) (entryLimit capacity : ℕ) :
    ℕ → UInt64 → Option (Except AstraVfsStatus (List AstraVfsDirEntry))
  | 0, _ => none
  | fuel + 1, cursor =>
    let (status, used, next) :=
      astraVfsBackendReaddirInto backend (some path) cursor entryLimit capacity
    match readdirBatch (some path) true entryLimit ⟨status, used.length, next, used⟩ with
    | none => none
    | some (.error status) => some (if status = .notFound then .ok [] else .error status)
    | some (.ok (found, next)) =>
      if next = 0 then some (.ok found)
      else (listFrom backend path entryLimit capacity fuel next).map (Except.map (found ++ ·))

/-- `ram_readdir`: the cookie counts the children, and the one behind the last is zero. -/
def ramReaddir (children : List AstraVfsDirEntry) (cookie : UInt64) : ReaddirAnswer :=
  match children[cookie.toNat]? with
  | none => ⟨.notFound, [], ⟨0, 0, 0, 0, 0, 0, 0, ⟨0, 0, 0, 0, 0⟩⟩, 0⟩
  | some entry =>
    if entry.name.length + 1 > astraVfsNameMax then ⟨.bufferTooSmall, [], entry.info, 0⟩
    else ⟨.ok, entry.name ++ [0], entry.info,
      if cookie.toNat + 1 = children.length then 0 else cookie + 1⟩

end Astra
