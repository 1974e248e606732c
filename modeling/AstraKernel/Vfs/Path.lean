import AstraKernel.Vfs.Utf8

/-!
# Path operands in a transfer area

`vfs_path.c`: the operands of a request are strings in the transfer area of the session, the second
right behind the first, and the fields of the request say where they lie. A C string is the bytes
before its NUL; a pointer into the area is its offset, and what stands there is read up to the next
NUL.
-/

namespace Astra

inductive AstraVfsStatus
  | ok | protocol | notFound | exists_ | notDir | isDir | access | noSpace | invalid | badHandle
  | limit | io | notEmpty | unsupported | busy | bufferTooSmall | peer | crossDevice | loop
  | readOnly | escaped | lost | fileTooLarge | nameTooLong
  deriving DecidableEq

abbrev astraVfsPathMax : ℕ := 4096
abbrev astraVfsNameMax : ℕ := 256
abbrev astraVfsRequestSize : ℕ := 256
abbrev astraVfsFileInvalid : ℕ := 0

/-- A string as C has it: bytes, none of them NUL, and a NUL behind them. -/
structure CString where
  bytes : List UInt8
  noNul : (0 : UInt8) ∉ bytes
  deriving DecidableEq

def CString.memory (text : CString) : List UInt8 := text.bytes ++ [0]

structure AstraVfsPathFields where
  firstOffset : ℕ
  firstLength : ℕ
  secondOffset : ℕ
  secondLength : ℕ
  deriving DecidableEq

structure AstraVfsPathOperands where
  first : Option ℕ
  second : Option ℕ
  deriving DecidableEq

/-- The bytes before the terminator, one component after another; `component` counts the bytes
since the last slash. -/
def pathComponents : ℕ → List UInt8 → AstraVfsStatus
  | _, [] => .ok
  | component, c :: rest =>
    if c = 0 then .invalid
    else if c = 0x2f then pathComponents 0 rest
    else if component + 1 ≥ astraVfsNameMax then .nameTooLong
    else pathComponents (component + 1) rest

/-- `text` is the operand with its terminator: as many bytes as its length says. -/
def pathOperandStatus (text : List UInt8) : AstraVfsStatus :=
  if text.getLast? ≠ some 0 then .invalid
  else if text.length > astraVfsPathMax then .nameTooLong
  else if astraUtf8Validate text.dropLast = false then .invalid
  else pathComponents 0 text.dropLast

/-- Where the first NUL is, among as many bytes as the fuel allows. -/
def findNul : ℕ → List UInt8 → Option ℕ
  | 0, _ => none
  | _ + 1, [] => none
  | fuel + 1, c :: rest => if c = 0 then some 0 else (findNul fuel rest).map (· + 1)

def pathOperandLength : Option CString → AstraVfsStatus × ℕ
  | none => (.invalid, 0)
  | some text =>
    match findNul astraVfsPathMax text.memory with
    | none => (.nameTooLong, 0)
    | some i => (pathOperandStatus (text.memory.take (i + 1)), i + 1)

/-- `memmove` of `data` to an offset of the buffer. -/
def memmove (buffer : List UInt8) (offset : ℕ) (data : List UInt8) : List UInt8 :=
  buffer.take offset ++ data ++ buffer.drop (offset + data.length)

/-- What `astra_vfs_path_pack` answers and leaves: the fields, the bytes used and the buffer. -/
structure PathPacked where
  status : AstraVfsStatus
  fields : AstraVfsPathFields
  used : ℕ
  bytes : Option (List UInt8)
  deriving DecidableEq

def astraVfsPathPack (first second : Option CString) (bytes : Option (List UInt8))
    (capacity : ℕ) : PathPacked :=
  let failed status : PathPacked := ⟨status, ⟨0, 0, 0, 0⟩, 0, bytes⟩
  if (bytes = none ∧ capacity ≠ 0) ∨ (first = none ∧ second ≠ none) then failed .invalid
  else match first with
  | none => failed .ok
  | some text =>
    let (status, firstLength) := pathOperandLength (some text)
    if status ≠ .ok then failed status
    else
      let (status, secondLength) :=
        if second = none then (.ok, 0) else pathOperandLength second
      if status ≠ .ok then failed status
      else if firstLength > capacity ∨ secondLength > capacity - firstLength then
        failed .bufferTooSmall
      else
        let buffer := memmove (bytes.getD []) 0 (text.memory.take firstLength)
        let buffer := match second with
          | some other => memmove buffer firstLength (other.memory.take secondLength)
          | none => buffer
        ⟨.ok, ⟨0, firstLength, if secondLength ≠ 0 then firstLength else 0, secondLength⟩,
          firstLength + secondLength, some buffer⟩

/-- `bytes` is the area the operands are in, all of its `size` bytes; `none` is a null pointer. -/
def astraVfsPathUnpack (fields : AstraVfsPathFields) (bytes : Option (List UInt8)) (size : ℕ)
    (operands : ℕ) : AstraVfsStatus × AstraVfsPathOperands :=
  let failed (status : AstraVfsStatus) : AstraVfsStatus × AstraVfsPathOperands :=
    (if status = .invalid then .protocol else status, ⟨none, none⟩)
  if operands > 2 then failed .protocol
  else if operands = 0 then
    if size = 0 ∧ fields = ⟨0, 0, 0, 0⟩ then (.ok, ⟨none, none⟩) else failed .protocol
  else match bytes with
  | none => failed .protocol
  | some area =>
    if fields.firstOffset ≠ 0 ∨ fields.firstLength = 0 ∨ fields.firstLength > size ∨
        (operands = 1 ∧ (fields.secondOffset ≠ 0 ∨ fields.secondLength ≠ 0)) ∨
        (operands = 2 ∧ (fields.secondOffset ≠ fields.firstLength ∨ fields.secondLength = 0)) ∨
        fields.secondLength ≠ size - fields.firstLength then failed .protocol
    else if pathOperandStatus (area.take fields.firstLength) ≠ .ok then
      failed (pathOperandStatus (area.take fields.firstLength))
    else if operands = 2 ∧
        pathOperandStatus ((area.drop fields.secondOffset).take fields.secondLength) ≠ .ok then
      failed (pathOperandStatus ((area.drop fields.secondOffset).take fields.secondLength))
    else (.ok, ⟨some 0, if operands = 2 then some fields.secondOffset else none⟩)

/-- The string a pointer into the area stands for. -/
def stringAt (area : List UInt8) (offset : ℕ) : List UInt8 :=
  (area.drop offset).takeWhile (· ≠ 0)

abbrev astraVfsOpHello : ℕ := 1
abbrev astraVfsOpOpen : ℕ := 3
abbrev astraVfsOpWrite : ℕ := 6
abbrev astraVfsOpStat : ℕ := 7
abbrev astraVfsOpReaddir : ℕ := 8
abbrev astraVfsOpMkdir : ℕ := 9
abbrev astraVfsOpUnlink : ℕ := 10
abbrev astraVfsOpReaddirBatch : ℕ := 13
abbrev astraVfsOpReadPath : ℕ := 14
abbrev astraVfsOpReaddirArea : ℕ := 16
abbrev astraVfsOpChmod : ℕ := 21
abbrev astraVfsOpReadlink : ℕ := 22
abbrev astraVfsOpRename : ℕ := 25
abbrev astraVfsOpSymlink : ℕ := 26
abbrev astraVfsOpLink : ℕ := 28
abbrev astraVfsOpOpenAt : ℕ := 29
abbrev astraVfsOpUnlinkAt : ℕ := 30
abbrev astraVfsOpChmodAt : ℕ := 32
abbrev astraVfsOpFilesystemInfo : ℕ := 33
abbrev astraVfsOpStatAt : ℕ := 34
abbrev astraVfsOpGrantDerive : ℕ := 36
abbrev astraVfsOpLookup : ℕ := 37

/-- What the decoder of the operands reads of a request. -/
structure AstraVfsPathRequest where
  size : ℕ
  file : ℕ
  secondFile : ℕ
  fileReserved : ℕ
  paths : AstraVfsPathFields
  deriving DecidableEq

def astraVfsPathOperandCount (operation : ℕ) (request : AstraVfsPathRequest) : ℕ :=
  if operation ∈ [astraVfsOpRename, astraVfsOpLink, astraVfsOpSymlink] then 2
  else if operation ∈ [astraVfsOpOpen, astraVfsOpOpenAt, astraVfsOpReadPath, astraVfsOpStat,
      astraVfsOpStatAt, astraVfsOpLookup, astraVfsOpReaddir, astraVfsOpReaddirBatch,
      astraVfsOpReaddirArea, astraVfsOpMkdir, astraVfsOpUnlink, astraVfsOpUnlinkAt,
      astraVfsOpChmod, astraVfsOpChmodAt, astraVfsOpReadlink, astraVfsOpGrantDerive] then 1
  else if operation = astraVfsOpFilesystemInfo then
    if request.file = astraVfsFileInvalid then 1 else 0
  else 0

/-- `transfer` is the input of the transfer, `none` where there is no transfer. -/
def astraVfsPathRequest (operation : ℕ) (request : AstraVfsPathRequest)
    (transfer : Option (List UInt8)) : AstraVfsStatus × AstraVfsPathOperands :=
  if request.size ≠ astraVfsRequestSize ∨ request.fileReserved ≠ 0 ∨
      (request.secondFile ≠ 0 ∧ operation ≠ astraVfsOpRename ∧ operation ≠ astraVfsOpLink) then
    (.protocol, ⟨none, none⟩)
  else if operation = astraVfsOpHello ∧ request.file ≠ astraVfsFileInvalid then
    (.protocol, ⟨none, none⟩)
  else if astraVfsPathOperandCount operation request = 0 ∧ operation = astraVfsOpWrite then
    (.ok, ⟨none, none⟩)
  else astraVfsPathUnpack request.paths transfer (transfer.getD []).length
    (astraVfsPathOperandCount operation request)

end Astra
