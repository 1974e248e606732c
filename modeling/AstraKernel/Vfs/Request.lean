import AstraKernel.Vfs.Service

/-!
# The calls of the storage service

A call holds the state lock except while it waits for a file, while the backend works for it, and
between parts that take the lock anew. A point is where it has dropped the lock, with what it keeps;
`resume` is the stretch from there to its next point or to its reply. Of the backend there is what
it returns: the checks `astra_vfs_backend_path_operation` and `astra_vfs_backend_readdir_into` make
first are part of that.
-/

namespace Astra

open Function

abbrev astraVfsOpBye : ℕ := 2
abbrev astraVfsOpClose : ℕ := 4
abbrev astraVfsOpRead : ℕ := 5
abbrev astraVfsOpSync : ℕ := 19
abbrev astraVfsOpTruncate : ℕ := 20
abbrev astraVfsOpChmodFile : ℕ := 31
abbrev astraVfsOpStatFile : ℕ := 35
abbrev astraVfsOpDirectoryPath : ℕ := 42
abbrev astraVfsOpTryLock : ℕ := 44
abbrev astraVfsOpMax : ℕ := astraVfsOpTryLock
abbrev astraVfsFilesystemInfoSize : ℕ := 64

/-- What a call has the backend do with the node of one file. -/
inductive FileWork
  | read (length : ℕ)
  | write (length : ℕ)
  | sync | tryLock | truncate | statAt | statNode | unlinkAt | chmodNode | chmodAt
  | filesystemInfo | readdir
  deriving DecidableEq

/-- How a call names a file: a session by a handle, or the holder of a retention by its token. -/
inductive FileName
  | handle (session handle : ℕ)
  | token (token : ℕ)
  deriving DecidableEq

/-- The directories of a path operation: the slots it has taken with their nodes, and whether its
second base is its first. -/
structure PathBases where
  first : Option (ℕ × ℕ)
  second : Option (ℕ × ℕ)
  same : Bool
  deriving DecidableEq

/-- The nodes the backend is given, zero where there is no base. -/
def PathBases.nodes (bases : PathBases) : ℕ × ℕ :=
  ((bases.first.map Prod.snd).getD 0,
    ((if bases.same then bases.first else bases.second).map Prod.snd).getD 0)

/-- A request with the session slot it has reserved. -/
structure RequestFrame where
  slot : ℕ
  operation : ℕ
  flags : BitVec 32
  reply : AstraVfsReply
  deriving DecidableEq

/-- What is left of a call when the work is done: the end of a request, the release of the session
slot a direct call or the directory read of a request has reserved, or nothing. -/
inductive Frame
  | request (frame : RequestFrame)
  | direct (slot : ℕ)
  | batch (slot : ℕ) (frame : RequestFrame)
  | retained
  deriving DecidableEq

/-- What a call takes a file for. -/
inductive Purpose
  | work (frame : Frame) (name : FileName) (work : FileWork)
  | openAt (frame : RequestFrame) (session : ℕ) (request : AstraVfsRequest)
  | firstBase (frame : RequestFrame) (session : ℕ) (request : AstraVfsRequest)
  | secondBase (frame : RequestFrame) (session : ℕ) (request : AstraVfsRequest)
      (first : Option (ℕ × ℕ))
  deriving DecidableEq

/-- What follows the release of a session slot. -/
inductive After
  | reply (reply : AstraVfsReply)
  | batch (frame : RequestFrame) (status : AstraVfsStatus)
  | grant (index grant : ℕ)
  deriving DecidableEq

/-- Who closes a file. -/
inductive Closer
  | request (frame : RequestFrame)
  | reap (slot session : ℕ) (after : After)
  | release (token : ℕ)
  deriving DecidableEq

inductive VfsPoint
  | waitFile (purpose : Purpose) (f generation : ℕ) (allowed : AstraVfsFileState)
      (expected : BitVec 32)
  | fileCall (frame : Frame) (name : FileName) (work : FileWork) (f node : ℕ)
  | openCall (frame : RequestFrame) (session : ℕ) (request : AstraVfsRequest) (slot f : ℕ)
      (directory : Option (ℕ × ℕ))
  | pathCall (frame : RequestFrame) (session : ℕ) (request : AstraVfsRequest) (bases : PathBases)
  | plainCall (frame : RequestFrame)
  | waitIdle (closer : Closer) (f : ℕ) (expected : BitVec 32)
  | closeCall (closer : Closer) (f node : ℕ)
  | batchEnter (frame : RequestFrame) (session directory : ℕ)
  | batchLeave (frame : RequestFrame) (status : AstraVfsStatus)
  | grant (index grant : ℕ)
  | grantSession (index grant session : ℕ)
  deriving DecidableEq

/-- How a stretch of a call ends: with the reply, at a point, or never. -/
inductive VfsOutcome
  | reply (reply : AstraVfsReply)
  | park (point : VfsPoint)
  | spins
  deriving DecidableEq

/-- The part of a reply that the body of a call decides. -/
structure FileResult where
  status : AstraVfsStatus
  file : ℕ
  count : ℕ
  deriving DecidableEq

def failed (status : AstraVfsStatus) : FileResult := ⟨status, astraVfsFileInvalid, 0⟩

def AstraVfsReply.withResult (reply : AstraVfsReply) (r : FileResult) : AstraVfsReply :=
  { reply with status := r.status, file := r.file, count := r.count }

def After.run (s : AstraVfsService) : After → AstraVfsService × VfsOutcome
  | .reply r => (s, .reply r)
  | .batch frame status => (s, .park (.batchLeave frame status))
  | .grant index g => (s, .park (.grant (index + 1) g))

/-- The loop of `reap_session`. A close that is refused leaves its file open, so that the loop finds
it again for ever; each other turn leaves one open file less. -/
def reapLoop (i session : ℕ) (after : After) :
    ℕ → AstraVfsService → AstraVfsService × VfsOutcome
  | 0, s => (s, .spins)
  | turns + 1, s =>
    match (List.range s.fileHighWater).find? fun f =>
        (s.files f).session = session ∧ (s.files f).state = .isOpen with
    | none => after.run (if (s.sessions i).openFiles ≠ 0 then s else retireSession s i)
    | some f =>
      let r := closeFile s f
      match r.1 with
      | .done _ => reapLoop i session after turns r.2
      | .waits => (r.2, .park (.waitIdle (.reap i session after) f (r.2.files f).sequence))
      | .backend => (r.2, .park (.closeCall (.reap i session after) f (r.2.files f).node))

def reapOn (s : AstraVfsService) (i session : ℕ) (after : After) : AstraVfsService × VfsOutcome :=
  reapLoop i session after (s.fileHighWater + 1) s

def reapSession (s : AstraVfsService) (i : ℕ) (after : After) : AstraVfsService × VfsOutcome :=
  reapOn s i (s.sessions i).id after

def finishSessionRequest (s : AstraVfsService) (i : ℕ) (after : After) :
    AstraVfsService × VfsOutcome :=
  let s := s.setSession i { s.sessions i with inflight := (s.sessions i).inflight - 1 }
  if (s.sessions i).closing ∧ (s.sessions i).inflight = 0 then reapSession s i after
  else after.run s

/-- What a request that succeeded changed. -/
def recordChange (s : AstraVfsService) (operation : ℕ) (flags : BitVec 32) : AstraVfsService :=
  if operation ∈ [astraVfsOpOpen, astraVfsOpOpenAt] then
    { s with changes :=
      ⟨if flags &&& astraVfsOpenTruncate ≠ 0 then s.changes.nodes + 1 else s.changes.nodes,
        if flags &&& astraVfsOpenCreate ≠ 0 then s.changes.entries + 1 else s.changes.entries⟩ }
  else if operation ∈ [astraVfsOpMkdir, astraVfsOpUnlink, astraVfsOpUnlinkAt, astraVfsOpRename,
      astraVfsOpLink, astraVfsOpSymlink] then
    { s with changes := ⟨s.changes.nodes, s.changes.entries + 1⟩ }
  else if operation ∈ [astraVfsOpTruncate, astraVfsOpChmod, astraVfsOpChmodFile,
      astraVfsOpChmodAt] then
    { s with changes := ⟨s.changes.nodes + 1, s.changes.entries⟩ }
  else s

/-- `dispatch_unlocked` from `done:` on, for a request that has reserved its session. -/
def finishRequest (s : AstraVfsService) (frame : RequestFrame) (reply : AstraVfsReply) :
    AstraVfsService × VfsOutcome :=
  let s := if reply.status = .ok then recordChange s frame.operation frame.flags else s
  finishSessionRequest s frame.slot (.reply reply)

def Frame.finish (s : AstraVfsService) (r : FileResult) : Frame → AstraVfsService × VfsOutcome
  | .request frame => finishRequest s frame (frame.reply.withResult r)
  | .direct i => finishSessionRequest s i (.reply ((clearReply astraVfsVersion).withResult r))
  | .batch i frame => finishSessionRequest s i (.batch frame r.status)
  | .retained => (s, .reply ((clearReply astraVfsVersion).withResult r))

def closerGoes (r : Closed × AstraVfsService) (closer : Closer) (f : ℕ) :
    AstraVfsService × VfsOutcome :=
  let s := r.2
  match r.1 with
  | .waits => (s, .park (.waitIdle closer f (s.files f).sequence))
  | .backend => (s, .park (.closeCall closer f (s.files f).node))
  | .done status =>
    match closer with
    | .request frame => (Frame.request frame).finish s (failed status)
    | .reap i session after => reapOn s i session after
    | .release _ => Frame.retained.finish s (failed status)

/-- A close from the return of the backend on. -/
def closerDone (s : AstraVfsService) (f : ℕ) (status : AstraVfsStatus) :
    Closer → AstraVfsService × VfsOutcome
  | .request frame => (Frame.request frame).finish (finishFileClose s f false) (failed status)
  | .reap i session after => reapOn (finishFileClose s f false) i session after
  | .release _ => Frame.retained.finish (finishFileClose s f true) (failed status)

def closerWoken (s : AstraVfsService) (closer : Closer) (f : ℕ) (waited : Bool) :
    AstraVfsService × VfsOutcome :=
  match closer with
  | .release _ => closerGoes (releaseRetainedWoken s f waited) closer f
  | _ => closerGoes (closeFileWoken s f waited) closer f

def releaseAll (s : AstraVfsService) (files : List ℕ) : AstraVfsService :=
  files.foldl fileRelease s

def PathBases.held (bases : PathBases) : List ℕ :=
  (bases.first.toList ++ bases.second.toList).map Prod.fst

/-- The end of `handle_path_operation` when the second base cannot be had. -/
def pathRefused (s : AstraVfsService) (frame : RequestFrame) (first : Option (ℕ × ℕ))
    (status : AstraVfsStatus) : AstraVfsService × VfsOutcome :=
  (Frame.request frame).finish (releaseAll s (first.toList.map Prod.fst)) (failed status)

/-- The second base a path operation names. -/
def secondId (operation : ℕ) (request : AstraVfsRequest) : ℕ :=
  if operation = astraVfsOpRename ∨ operation = astraVfsOpLink then request.secondFile else 0

namespace Purpose

def frame : Purpose → Frame
  | .work frame _ _ => frame
  | .openAt frame _ _ | .firstBase frame _ _ | .secondBase frame _ _ _ => .request frame

def name : Purpose → FileName
  | .work _ name _ => name
  | .openAt _ session request | .firstBase _ session request => .handle session request.file
  | .secondBase frame session request _ => .handle session (secondId frame.operation request)

/-- The slots a call has taken before it comes to this purpose. -/
def held : Purpose → List ℕ
  | .secondBase _ _ _ first => first.toList.map Prod.fst
  | _ => []

end Purpose

/-- The second base of a path operation has been taken. -/
def pathTaken (s : AstraVfsService) (frame : RequestFrame) (session : ℕ)
    (request : AstraVfsRequest) (first : Option (ℕ × ℕ)) (f : ℕ) : AstraVfsService × VfsOutcome :=
  (s, .park (.pathCall frame session request ⟨first, some (f, (s.files f).node), false⟩))

/-- A file could not be had. -/
def refusedFile (s : AstraVfsService) (purpose : Purpose) : AstraVfsService × VfsOutcome :=
  purpose.frame.finish (releaseAll s purpose.held) (failed (match purpose.name with
    | .handle _ _ => .io
    | .token _ => .busy))

/-- The loop of `handle_path_operation` at the second base. -/
def pathSecond (s : AstraVfsService) (frame : RequestFrame) (session : ℕ)
    (request : AstraVfsRequest) (first : Option (ℕ × ℕ)) : AstraVfsService × VfsOutcome :=
  let second := secondId frame.operation request
  if second = 0 then (s, .park (.pathCall frame session request ⟨first, none, false⟩))
  else if second = request.file then
    (s, .park (.pathCall frame session request ⟨first, none, true⟩))
  else
    match findFile s session second with
    | (none, status) => pathRefused s frame first status
    | (some f, _) =>
      if (s.files f).kind ≠ .directory then pathRefused s frame first .notDir
      else
        let purpose := Purpose.secondBase frame session request first
        let r := fileAcquire s f
        match r.1 with
        | .taken => pathTaken r.2 frame session request first f
        | .waits => (r.2, .park (.waitFile purpose f (s.files f).generation .isOpen
            (r.2.files f).sequence))
        | .refused => refusedFile r.2 purpose

/-- `handle_open` up to the backend, beneath the directory in slot and node `directory`. -/
def openBeneath (s : AstraVfsService) (frame : RequestFrame) (session : ℕ)
    (request : AstraVfsRequest) (directory : Option (ℕ × ℕ)) : AstraVfsService × VfsOutcome :=
  match handleOpen s session request with
  | (.inl status, s) =>
    (Frame.request frame).finish (releaseAll s (directory.toList.map Prod.fst)) (failed status)
  | (.inr (i, f), s) => (s, .park (.openCall frame session request i f directory))

/-- A file has been taken for its purpose. -/
def takenFile (s : AstraVfsService) (f : ℕ) : Purpose → AstraVfsService × VfsOutcome
  | .work frame name work =>
    match name with
    | .handle _ _ => (s, .park (.fileCall frame name work f (s.files f).node))
    | .token token =>
      if findRetained s token = some f then
        (s, .park (.fileCall frame name work f (s.files f).node))
      else frame.finish (fileRelease s f) (failed .badHandle)
  | .openAt frame session request =>
    openBeneath s frame session request (some (f, (s.files f).node))
  | .firstBase frame session request =>
    pathSecond s frame session request (some (f, (s.files f).node))
  | .secondBase frame session request first => pathTaken s frame session request first f

def acquiredFile (r : Acquired × AstraVfsService) (purpose : Purpose) (f generation : ℕ)
    (allowed : AstraVfsFileState) : AstraVfsService × VfsOutcome :=
  match r.1 with
  | .taken => takenFile r.2 f purpose
  | .waits => (r.2, .park (.waitFile purpose f generation allowed (r.2.files f).sequence))
  | .refused => refusedFile r.2 purpose

/-- A file is looked up by its handle, checked and taken. -/
def requestFile (s : AstraVfsService) (session handle : ℕ)
    (check : AstraVfsOpenFile → AstraVfsStatus) (purpose : Purpose) :
    AstraVfsService × VfsOutcome :=
  match findFile s session handle with
  | (none, status) => purpose.frame.finish s (failed status)
  | (some f, _) =>
    if check (s.files f) ≠ .ok then purpose.frame.finish s (failed (check (s.files f)))
    else acquiredFile (fileAcquire s f) purpose f (s.files f).generation .isOpen

/-- A file is looked up by the token of its retention, checked and taken. -/
def retainedFile (s : AstraVfsService) (token : ℕ) (check : AstraVfsOpenFile → AstraVfsStatus)
    (work : FileWork) : AstraVfsService × VfsOutcome :=
  match findRetained s token with
  | none => Frame.retained.finish s (failed .badHandle)
  | some f =>
    if check (s.files f) ≠ .ok then Frame.retained.finish s (failed (check (s.files f)))
    else
      acquiredFile (fileAcquireFor s f (s.files f).state) (.work .retained (.token token) work) f
        (s.files f).generation (s.files f).state

/-- The work of a request on the file of a handle. -/
def workFile (s : AstraVfsService) (frame : Frame) (session handle : ℕ)
    (check : AstraVfsOpenFile → AstraVfsStatus) (work : FileWork) : AstraVfsService × VfsOutcome :=
  requestFile s session handle check (.work frame (.handle session handle) work)

def anyFile (_ : AstraVfsOpenFile) : AstraVfsStatus := .ok

def checkDirectory (file : AstraVfsOpenFile) : AstraVfsStatus :=
  if file.kind ≠ .directory then .notDir else .ok

/-- The checks of `read_file`. -/
def checkRead (file : AstraVfsOpenFile) : AstraVfsStatus :=
  if file.flags &&& astraVfsOpenRead = 0 then .access
  else if file.kind = .directory then .isDir
  else .ok

/-- The checks of `write_file`. -/
def checkWrite (flags : BitVec 32) (file : AstraVfsOpenFile) : AstraVfsStatus :=
  if flags &&& ~~~astraVfsWriteAppend ≠ 0 then .invalid
  else if file.flags &&& astraVfsOpenWrite = 0 then .access
  else if file.kind = .directory then .isDir
  else .ok

def checkTryLock (tryLock : Bool) (file : AstraVfsOpenFile) : AstraVfsStatus :=
  if file.flags &&& astraVfsOpenWrite = 0 then .access
  else if tryLock = false then .unsupported
  else .ok

def checkTruncate (file : AstraVfsOpenFile) : AstraVfsStatus :=
  if file.flags &&& astraVfsOpenWrite = 0 then .access
  else if file.kind = .directory then .isDir
  else .ok

/-- `handle_read`: what it checks before `read_file`. -/
def checkHandleRead (request : AstraVfsRequest) (file : AstraVfsOpenFile) : AstraVfsStatus :=
  if request.flags ≠ 0 then .unsupported else checkRead file

/-- `handle_write`: what it checks before `write_file`. -/
def checkHandleWrite (request : AstraVfsRequest) (file : AstraVfsOpenFile) : AstraVfsStatus :=
  if request.length > astraVfsIoMax then .invalid else checkWrite request.flags file

/-- The loop of `handle_path_operation` from the first base on. -/
def handlePathOperation (s : AstraVfsService) (frame : RequestFrame) (session : ℕ)
    (request : AstraVfsRequest) : AstraVfsService × VfsOutcome :=
  if request.file = 0 then pathSecond s frame session request none
  else requestFile s session request.file checkDirectory (.firstBase frame session request)

/-- Whether a first operand is not a path beneath a directory: empty, or absolute. -/
def operandAbsolute (area : Option (List UInt8)) (paths : AstraVfsPathOperands) : Bool :=
  let c := ((area.getD [])[paths.first.getD 0]?).getD 0
  c = 0x2f || c = 0

/-- The work on the file of a request whose other arguments are checked first. -/
def checkedFile (s : AstraVfsService) (frame : RequestFrame) (session handle : ℕ) (invalid : Bool)
    (check : AstraVfsOpenFile → AstraVfsStatus) (work : FileWork) : AstraVfsService × VfsOutcome :=
  if invalid then (Frame.request frame).finish s (failed .invalid)
  else workFile s (.request frame) session handle check work

def handleOpenAt (s : AstraVfsService) (frame : RequestFrame) (session : ℕ)
    (request : AstraVfsRequest) (absolute : Bool) : AstraVfsService × VfsOutcome :=
  if absolute then (Frame.request frame).finish s (failed .invalid)
  else requestFile s session request.file checkDirectory (.openAt frame session request)

def checkedPlain (s : AstraVfsService) (frame : RequestFrame) (invalid : Bool) :
    AstraVfsService × VfsOutcome :=
  if invalid then (Frame.request frame).finish s (failed .invalid)
  else (s, .park (.plainCall frame))

def handleClose (s : AstraVfsService) (frame : RequestFrame) (session handle : ℕ) :
    AstraVfsService × VfsOutcome :=
  match findFile s session handle with
  | (none, status) => (Frame.request frame).finish s (failed status)
  | (some f, _) => closerGoes (closeFile s f) (.request frame) f

def handleBye (s : AstraVfsService) (frame : RequestFrame) : AstraVfsService × VfsOutcome :=
  let s := s.setSession frame.slot { s.sessions frame.slot with closing := true }
  finishRequest s frame { frame.reply with session := astraVfsSessionInvalid, status := .ok }

/-- The switch of `dispatch_unlocked`, for a request that has reserved its session. -/
def dispatchReserved (s : AstraVfsService) (frame : RequestFrame) (session : ℕ)
    (request : AstraVfsRequest) (area : Option (List UInt8)) (paths : AstraVfsPathOperands) :
    AstraVfsService × VfsOutcome :=
  let operation := frame.operation
  let absolute := operandAbsolute area paths
  let badMode := decide (request.offset > astraVfsModeMask)
  let file := request.file
  if operation = astraVfsOpBye then handleBye s frame
  else if operation = astraVfsOpOpen then openBeneath s frame session request none
  else if operation = astraVfsOpOpenAt then
    handleOpenAt s frame session request absolute
  else if operation = astraVfsOpClose then handleClose s frame session file
  else if operation = astraVfsOpRead then
    workFile s (.request frame) session file (checkHandleRead request)
      (.read (min request.length astraVfsIoMax))
  else if operation = astraVfsOpWrite then
    workFile s (.request frame) session file (checkHandleWrite request)
      (.write request.length)
  else if operation = astraVfsOpSync then
    workFile s (.request frame) session file anyFile .sync
  else if operation = astraVfsOpTryLock then
    workFile s (.request frame) session file (checkTryLock s.tryLock) .tryLock
  else if operation = astraVfsOpTruncate then
    workFile s (.request frame) session file checkTruncate .truncate
  else if operation ∈ [astraVfsOpLookup, astraVfsOpMkdir, astraVfsOpRename, astraVfsOpLink,
      astraVfsOpSymlink, astraVfsOpReadlink, astraVfsOpDirectoryPath] then
    handlePathOperation s frame session request
  else if operation ∈ [astraVfsOpStat, astraVfsOpReaddir] then checkedPlain s frame false
  else if operation = astraVfsOpStatAt then
    checkedFile s frame session file
      (absolute || request.flags &&& ~~~astraVfsStatFollow ≠ 0) checkDirectory .statAt
  else if operation = astraVfsOpStatFile then
    checkedFile s frame session file (request.flags ≠ 0) anyFile .statNode
  else if operation ∈ [astraVfsOpReaddirBatch, astraVfsOpReaddirArea] then
    if file ≠ astraVfsFileInvalid then (s, .park (.batchEnter frame request.session file))
    else checkedPlain s frame false
  else if operation = astraVfsOpUnlink then
    checkedPlain s frame (request.flags &&& ~~~astraVfsUnlinkDirectory ≠ 0)
  else if operation = astraVfsOpChmod then checkedPlain s frame badMode
  else if operation = astraVfsOpUnlinkAt then
    checkedFile s frame session file
      (absolute || request.flags &&& ~~~astraVfsUnlinkDirectory ≠ 0) checkDirectory
      .unlinkAt
  else if operation = astraVfsOpChmodFile then
    checkedFile s frame session file badMode anyFile .chmodNode
  else if operation = astraVfsOpChmodAt then
    checkedFile s frame session file
      (absolute || badMode || request.flags &&& ~~~astraVfsAtSymlinkNofollow ≠ 0) checkDirectory
      .chmodAt
  else if operation = astraVfsOpFilesystemInfo then
    if file = astraVfsFileInvalid then checkedPlain s frame false
    else workFile s (.request frame) session file anyFile .filesystemInfo
  else if operation = astraVfsOpGrantDerive then
    (Frame.request frame).finish s (failed .unsupported)
  else (Frame.request frame).finish s (failed .protocol)

def astraVfsServiceDispatchGrant (s : AstraVfsService) (owner grant features operation : ℕ)
    (request : AstraVfsRequest) (area : Option (List UInt8)) : AstraVfsService × VfsOutcome :=
  let reply := clearReply astraVfsVersion
  if operation = 0 ∨ operation > astraVfsOpMax ∨ request.version ≠ astraVfsVersion then
    (s, .reply reply)
  else
    let paths := astraVfsPathRequest operation request.toAstraVfsPathRequest area
    if paths.1 ≠ .ok then (s, .reply { reply with status := paths.1 })
    else if operation = astraVfsOpHello then
      let r := handleHello s owner grant features request
      (r.2, .reply r.1)
    else
      match findSession s request.session with
      | none => (s, .reply { reply with status := .badHandle })
      | some i =>
        let slot := s.sessions i
        if slot.owner ≠ owner ∨ slot.grant ≠ grant then (s, .reply { reply with status := .access })
        else if slot.closing ∨ slot.inflight = 65535 then (s, .reply { reply with status := .busy })
        else
          let s := s.setSession i { slot with inflight := slot.inflight + 1 }
          dispatchReserved s ⟨i, operation, request.flags,
            { reply with version := slot.version, session := slot.id }⟩ slot.id request area paths.2

def beginSessionRequest (s : AstraVfsService) (session : ℕ) :
    (AstraVfsStatus ⊕ ℕ) × AstraVfsService :=
  match findSession s session with
  | none => (.inl .badHandle, s)
  | some i =>
    let slot := s.sessions i
    if slot.closing ∨ slot.inflight = 65535 then (.inl .busy, s)
    else (.inr i, s.setSession i { slot with inflight := slot.inflight + 1 })

/-- A call that reserves the session of a file for itself: on its own, or within a request. -/
def directFile (s : AstraVfsService) (outer : Option RequestFrame) (session handle : ℕ)
    (invalid : Bool) (check : AstraVfsOpenFile → AstraVfsStatus) (work : FileWork) :
    AstraVfsService × VfsOutcome :=
  match beginSessionRequest s session with
  | (.inl status, s) =>
    match outer with
    | none => (s, .reply { clearReply astraVfsVersion with status := status })
    | some frame => (s, .park (.batchLeave frame status))
  | (.inr i, s) =>
    let frame := match outer with
      | none => Frame.direct i
      | some frame => Frame.batch i frame
    if invalid then frame.finish s (failed .invalid)
    else workFile s frame session handle check work

def astraVfsServiceReaddirFileInto (s : AstraVfsService) (outer : Option RequestFrame)
    (session directory : ℕ) : AstraVfsService × VfsOutcome :=
  directFile s outer session directory false checkDirectory .readdir

def astraVfsServiceReadInto (s : AstraVfsService) (session handle length : ℕ) :
    AstraVfsService × VfsOutcome :=
  directFile s none session handle (length = 0) checkRead (.read length)

def astraVfsServiceWritePositionFrom (s : AstraVfsService) (session handle : ℕ)
    (flags : BitVec 32) (length : ℕ) : AstraVfsService × VfsOutcome :=
  directFile s none session handle (length = 0) (checkWrite flags) (.write length)

def astraVfsServiceReadRetained (s : AstraVfsService) (token length : ℕ) :
    AstraVfsService × VfsOutcome :=
  if length = 0 then Frame.retained.finish s (failed .invalid)
  else retainedFile s token anyFile (.read length)

def astraVfsServiceStatRetained (s : AstraVfsService) (token : ℕ) : AstraVfsService × VfsOutcome :=
  retainedFile s token anyFile .statNode

def astraVfsServiceWriteRetained (s : AstraVfsService) (token length : ℕ) :
    AstraVfsService × VfsOutcome :=
  if length = 0 then Frame.retained.finish s (failed .invalid)
  else retainedFile s token (checkWrite 0) (.write length)

def astraVfsServiceSyncRetained (s : AstraVfsService) (token : ℕ) : AstraVfsService × VfsOutcome :=
  retainedFile s token anyFile .sync

def astraVfsServiceReleaseSession (s : AstraVfsService) (session : ℕ) (after : After) :
    AstraVfsService × VfsOutcome :=
  match findSession s session with
  | none => after.run s
  | some i =>
    let s := s.setSession i { s.sessions i with closing := true }
    if (s.sessions i).inflight = 0 then reapSession s i after else after.run s

/-- A turn of the loop of `astra_vfs_service_release_grant`, up to the release of the lock. -/
def astraVfsServiceReleaseGrant (s : AstraVfsService) (index grant : ℕ) :
    AstraVfsService × VfsOutcome :=
  if index ≥ s.sessionCapacity then Frame.retained.finish s (failed .ok)
  else if (s.sessions index).id ≠ 0 ∧ (s.sessions index).grant = grant then
    (s, .park (.grantSession index grant (s.sessions index).id))
  else (s, .park (.grant (index + 1) grant))

/-- The work on one file from the return of the backend on. -/
def fileCallDone (s : AstraVfsService) (frame : Frame) (work : FileWork) (f : ℕ)
    (a : BackendAnswer) : AstraVfsService × VfsOutcome :=
  let s := fileRelease s f
  match work with
  | .read length =>
    if a.status = .ok ∧ a.moved > length then frame.finish s (failed .io)
    else frame.finish s ⟨a.status, astraVfsFileInvalid, a.moved⟩
  | .write length =>
    let s := if a.moved ≠ 0 then
      { s with changes := ⟨s.changes.nodes + 1, s.changes.entries⟩ } else s
    if a.moved > length then frame.finish s (failed .io)
    else frame.finish s ⟨a.status, astraVfsFileInvalid, match frame with
      | .request _ => if a.status = .ok then a.moved else 0
      | _ => a.moved⟩
  | .filesystemInfo =>
    frame.finish s ⟨a.status, astraVfsFileInvalid,
      if a.status = .ok then astraVfsFilesystemInfoSize else 0⟩
  | _ => frame.finish s (failed a.status)

/-- The hook and the backend, as they return to a point. -/
structure VfsAnswer where
  waited : Bool
  backend : BackendAnswer
  deriving DecidableEq

def VfsPoint.resume (s : AstraVfsService) (a : VfsAnswer) :
    VfsPoint → AstraVfsService × VfsOutcome
  | .waitFile purpose f generation allowed _ =>
    acquiredFile (fileAcquireWoken s f generation allowed a.waited) purpose f generation allowed
  | .fileCall frame _ work f _ => fileCallDone s frame work f a.backend
  | .openCall frame session request i f directory =>
    let r := handleOpenDone s session i f request.flags a.backend
    (Frame.request frame).finish (releaseAll r.2.2 (directory.toList.map Prod.fst)) ⟨r.1, r.2.1, 0⟩
  | .pathCall frame _ _ bases =>
    (Frame.request frame).finish (releaseAll s bases.held) (failed a.backend.status)
  | .plainCall frame =>
    (Frame.request frame).finish s ⟨a.backend.status, astraVfsFileInvalid,
      if frame.operation = astraVfsOpFilesystemInfo ∧ a.backend.status = .ok then
        astraVfsFilesystemInfoSize else 0⟩
  | .waitIdle closer f _ => closerWoken s closer f a.waited
  | .closeCall closer f _ => closerDone s f a.backend.status closer
  | .batchEnter frame session directory =>
    astraVfsServiceReaddirFileInto s (some frame) session directory
  | .batchLeave frame status => (Frame.request frame).finish s (failed status)
  | .grant index g => astraVfsServiceReleaseGrant s index g
  | .grantSession index g session => astraVfsServiceReleaseSession s session (.grant index g)

end Astra
