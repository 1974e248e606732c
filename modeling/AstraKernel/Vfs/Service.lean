import AstraKernel.Vfs.Path

/-!
# The sessions and files of the storage service

`vfs_service_core.c`: clients hold sessions, sessions hold files, and a file is a slot of a table
that the service owns. A handle is a slot and the generation of the slot. Everything here runs with
the state lock held.

With the tables goes what the backend was asked for: every open that succeeded, how often its node
was closed, and how often each slot was given up. Statistics, test hooks and the callback of a
changed session are left out.
-/

namespace Astra

open Function

abbrev astraVfsVersion : ℕ := 40
abbrev astraVfsIoMax : ℕ := 208
abbrev astraVfsSessionInvalid : ℕ := 0
abbrev astraVfsSessionMax : ℕ := 255
abbrev astraVfsFileHandleMax : ℕ := 65535
abbrev astraVfsWaitersMax : ℕ := 65535
abbrev astraVfsModeDefault : ℕ := 0xffff
abbrev astraVfsModeMask : ℕ := 0o7777

abbrev astraVfsOpenRead : BitVec 32 := 0x001
abbrev astraVfsOpenWrite : BitVec 32 := 0x002
abbrev astraVfsOpenCreate : BitVec 32 := 0x004
abbrev astraVfsOpenTruncate : BitVec 32 := 0x008
abbrev astraVfsOpenExclusive : BitVec 32 := 0x020
abbrev astraVfsOpenMask : BitVec 32 := 0x1ff
abbrev astraVfsWriteAppend : BitVec 32 := 1
abbrev astraVfsUnlinkDirectory : BitVec 32 := 1
abbrev astraVfsStatFollow : BitVec 32 := 1
abbrev astraVfsAtSymlinkNofollow : BitVec 32 := 2

inductive AstraVfsKind
  | unknown | file | directory | symlink
  deriving DecidableEq, Repr

inductive AstraVfsFileState
  | free | opening | isOpen | closing | detached
  deriving DecidableEq, Repr

structure AstraVfsOpenFile where
  node : ℕ
  session : ℕ
  flags : BitVec 32
  sequence : BitVec 32
  generation : ℕ
  kind : AstraVfsKind
  waiters : ℕ
  state : AstraVfsFileState
  active : Bool
  retained : Bool
  deriving DecidableEq

structure AstraVfsSessionSlot where
  id : ℕ
  owner : ℕ
  grant : ℕ
  openFiles : ℕ
  version : ℕ
  inflight : ℕ
  closing : Bool
  deriving DecidableEq

structure AstraVfsChangeSnapshot where
  nodes : ℕ
  entries : ℕ
  deriving DecidableEq

/-- An open of the backend that succeeded: the node it gave, for which slot and session, how often the
slot had been given up before, the handle that names it, and how many times the backend was asked to
close the node. -/
structure BackendOpen where
  slot : ℕ
  session : ℕ
  node : ℕ
  use : ℕ
  handle : ℕ
  closes : ℕ
  deriving DecidableEq

/-- The service and what it asked of the backend. Of the wait hook there is whether it is set, of the
backend whether it has `try_lock`. -/
structure AstraVfsService where
  sessions : ℕ → AstraVfsSessionSlot
  sessionCapacity : ℕ
  files : ℕ → AstraVfsOpenFile
  fileCapacity : ℕ
  fileHighWater : ℕ
  changes : AstraVfsChangeSnapshot
  nextSession : ℕ
  openSessions : ℕ
  openFiles : ℕ
  ownerSessionLimit : ℕ
  stateWait : Bool
  tryLock : Bool
  opens : List BackendOpen
  /-- The place in `opens` of the open whose node a slot holds. -/
  opening : ℕ → ℕ
  reuses : ℕ → ℕ
  sessionsOpened : ℕ

/-- A reply; the metadata, positions and bytes the backend answers with are left out. -/
structure AstraVfsReply where
  version : ℕ
  session : ℕ
  status : AstraVfsStatus
  features : ℕ
  file : ℕ
  count : ℕ
  deriving DecidableEq

structure AstraVfsRequest extends AstraVfsPathRequest where
  version : ℕ
  session : ℕ
  flags : BitVec 32
  offset : ℕ
  length : ℕ
  deriving DecidableEq

def handleMake (slot generation : ℕ) : ℕ := (generation <<< 16) ||| (slot + 1)

def handleSlot (handle : ℕ) : ℕ := (handle &&& 0xffff) - 1

def handleGeneration (handle : ℕ) : ℕ := handle >>> 16

namespace AstraVfsService

variable (s : AstraVfsService)

def setFile (f : ℕ) (file : AstraVfsOpenFile) : AstraVfsService :=
  { s with files := update s.files f file }

def setSession (i : ℕ) (slot : AstraVfsSessionSlot) : AstraVfsService :=
  { s with sessions := update s.sessions i slot }

end AstraVfsService

def noFile : AstraVfsOpenFile :=
  { node := 0, session := 0, flags := 0, sequence := 0, generation := 0, kind := .unknown,
    waiters := 0, state := .free, active := false, retained := false }

def noSession : AstraVfsSessionSlot :=
  { id := 0, owner := 0, grant := 0, openFiles := 0, version := 0, inflight := 0, closing := false }

/-- `astra_vfs_service_init`, `astra_vfs_service_set_state_wait` and
`astra_vfs_service_set_owner_sessions` over zero-filled storage. -/
def astraVfsServiceInit (sessionCapacity fileCapacity ownerSessionLimit : ℕ)
    (stateWait tryLock : Bool) : AstraVfsService :=
  { sessions := fun _ => noSession, sessionCapacity := sessionCapacity, files := fun _ => noFile,
    fileCapacity := fileCapacity, fileHighWater := 0, changes := ⟨0, 0⟩, nextSession := 1,
    openSessions := 0, openFiles := 0, ownerSessionLimit := ownerSessionLimit,
    stateWait := stateWait, tryLock := tryLock, opens := [], opening := fun _ => 0,
    reuses := fun _ => 0, sessionsOpened := 0 }

def findSession (s : AstraVfsService) (session : ℕ) : Option ℕ :=
  if session = astraVfsSessionInvalid then none
  else (List.range s.sessionCapacity).find? fun i => (s.sessions i).id = session

/-- The slot of a handle, with the status of the search. -/
def findFile (s : AstraVfsService) (session handle : ℕ) : Option ℕ × AstraVfsStatus :=
  if handle = astraVfsFileInvalid ∨ handle &&& 0xffff = 0 then (none, .badHandle)
  else if handleSlot handle ≥ s.fileHighWater then (none, .badHandle)
  else
    let file := s.files (handleSlot handle)
    if file.state ≠ .isOpen ∨ file.session = 0 then (none, .badHandle)
    else if file.generation ≠ handleGeneration handle then (none, .badHandle)
    else if file.session ≠ session then (none, .access)
    else (some (handleSlot handle), .ok)

def findRetained (s : AstraVfsService) (token : ℕ) : Option ℕ :=
  if token = astraVfsFileInvalid ∨ token &&& 0xffff = 0 then none
  else if handleSlot token ≥ s.fileHighWater then none
  else
    let file := s.files (handleSlot token)
    if file.retained = false ∨ file.generation ≠ handleGeneration token ∨
        (file.state ≠ .isOpen ∧ file.state ≠ .detached) then none
    else some (handleSlot token)

/-- How an attempt to have a file to itself ends: with the file, by going to wait, or in vain. -/
inductive Acquired
  | taken | waits | refused
  deriving DecidableEq

/-- The loop of `file_acquire_for` at its head. -/
def fileAcquireLoop (s : AstraVfsService) (f : ℕ) : Acquired × AstraVfsService :=
  let file := s.files f
  if file.active then
    if s.stateWait = false ∨ file.waiters = astraVfsWaitersMax then (.refused, s)
    else (.waits, s.setFile f { file with waiters := file.waiters + 1 })
  else (.taken, s.setFile f { file with active := true })

def fileAcquireFor (s : AstraVfsService) (f : ℕ) (allowedState : AstraVfsFileState) :
    Acquired × AstraVfsService :=
  if (s.files f).state ≠ allowedState then (.refused, s) else fileAcquireLoop s f

/-- `file_acquire_for` from the return of the wait hook on. -/
def fileAcquireWoken (s : AstraVfsService) (f generation : ℕ) (allowedState : AstraVfsFileState)
    (waited : Bool) : Acquired × AstraVfsService :=
  let s := s.setFile f { s.files f with waiters := (s.files f).waiters - 1 }
  if waited = false then (.refused, s)
  else if (s.files f).state ≠ allowedState ∨ (s.files f).generation ≠ generation then (.refused, s)
  else fileAcquireLoop s f

def fileAcquire (s : AstraVfsService) (f : ℕ) : Acquired × AstraVfsService :=
  fileAcquireFor s f .isOpen

def fileRelease (s : AstraVfsService) (f : ℕ) : AstraVfsService :=
  s.setFile f { s.files f with active := false, sequence := (s.files f).sequence + 1 }

/-- The loop of `file_wait_idle` at its head. -/
def fileWaitIdle (s : AstraVfsService) (f : ℕ) : Acquired × AstraVfsService :=
  let file := s.files f
  if file.active then
    if s.stateWait = false ∨ file.waiters = astraVfsWaitersMax then (.refused, s)
    else (.waits, s.setFile f { file with waiters := file.waiters + 1 })
  else (.taken, s)

/-- `file_wait_idle` from the return of the wait hook on. -/
def fileWaitIdleWoken (s : AstraVfsService) (f : ℕ) (waited : Bool) : Acquired × AstraVfsService :=
  let s := s.setFile f { s.files f with waiters := (s.files f).waiters - 1 }
  if waited = false then (.refused, s) else fileWaitIdle s f

def nextGeneration (generation : ℕ) : ℕ :=
  if (generation + 1) % 65536 = 0 then 1 else (generation + 1) % 65536

def dropOpenFile (s : AstraVfsService) (slot : Option ℕ) : AstraVfsService :=
  match slot with
  | none => s
  | some i =>
    if (s.sessions i).openFiles = 0 then s
    else s.setSession i { s.sessions i with openFiles := (s.sessions i).openFiles - 1 }

def finishFileClose (s : AstraVfsService) (f : ℕ) (alreadyDetached : Bool) : AstraVfsService :=
  let slot := findSession s (s.files f).session
  let file := s.files f
  let s := s.setFile f
    { file with node := 0, session := 0, flags := 0, kind := .unknown, state := .free,
                active := false, retained := false, sequence := file.sequence + 1,
                generation := nextGeneration file.generation }
  let s := { s with openFiles := s.openFiles - 1, reuses := update s.reuses f (s.reuses f + 1) }
  if alreadyDetached then s else dropOpenFile s slot

/-- The backend is asked to close the node of a slot. -/
def backendClose (s : AstraVfsService) (f : ℕ) : AstraVfsService :=
  { s with opens := s.opens.modify (s.opening f) fun o => { o with closes := o.closes + 1 } }

/-- How a close of a file goes on: it is over with a status, waits for the file to be idle, or is in
the backend. -/
inductive Closed
  | done (status : AstraVfsStatus)
  | waits
  | backend
  deriving DecidableEq

def closeDetach (s : AstraVfsService) (f : ℕ) : AstraVfsService :=
  let slot := findSession s (s.files f).session
  dropOpenFile (s.setFile f { s.files f with session := 0, state := .detached }) slot

/-- `close_file` once `file_wait_idle` has returned or gone to wait. -/
def closeFileAt (r : Acquired × AstraVfsService) (f : ℕ) : Closed × AstraVfsService :=
  let s := r.2
  match r.1 with
  | .waits => (.waits, s)
  | .refused => (.done .io, s.setFile f { s.files f with state := .isOpen })
  | .taken =>
    if (s.files f).retained then (.done .ok, closeDetach s f) else (.backend, backendClose s f)

def closeFile (s : AstraVfsService) (f : ℕ) : Closed × AstraVfsService :=
  if (s.files f).state ≠ .isOpen then (.done .busy, s)
  else
    let s := s.setFile f { s.files f with state := .closing }
    closeFileAt (fileWaitIdle s f) f

def closeFileWoken (s : AstraVfsService) (f : ℕ) (waited : Bool) : Closed × AstraVfsService :=
  closeFileAt (fileWaitIdleWoken s f waited) f

/-- `astra_vfs_service_release_retained` once `file_wait_idle` has returned or gone to wait. -/
def releaseRetainedAt (r : Acquired × AstraVfsService) (f : ℕ) : Closed × AstraVfsService :=
  let s := r.2
  match r.1 with
  | .waits => (.waits, s)
  | .refused => (.done .io, s.setFile f { s.files f with state := .detached })
  | .taken => (.backend, backendClose s f)

def astraVfsServiceReleaseRetained (s : AstraVfsService) (token : ℕ) :
    Closed × AstraVfsService :=
  match findRetained s token with
  | none => (.done .badHandle, s)
  | some f =>
    if (s.files f).state = .isOpen then
      (.done .ok, s.setFile f { s.files f with retained := false })
    else
      let s := s.setFile f { s.files f with state := .closing }
      releaseRetainedAt (fileWaitIdle s f) f

def releaseRetainedWoken (s : AstraVfsService) (f : ℕ) (waited : Bool) :
    Closed × AstraVfsService :=
  releaseRetainedAt (fileWaitIdleWoken s f waited) f

def astraVfsServiceRetainFile (s : AstraVfsService) (session handle : ℕ) :
    AstraVfsStatus × ℕ × AstraVfsService :=
  match findFile s session handle with
  | (none, status) => (status, astraVfsFileInvalid, s)
  | (some f, status) =>
    let file := s.files f
    if file.kind ≠ .file ∨ file.flags &&& astraVfsOpenRead = 0 then
      (.access, astraVfsFileInvalid, s)
    else if file.retained then (.busy, astraVfsFileInvalid, s)
    else (status, handle, s.setFile f { file with retained := true })

def clearReply (version : ℕ) : AstraVfsReply :=
  ⟨version, 0, .protocol, 0, 0, 0⟩

def handleHello (s : AstraVfsService) (owner grant features : ℕ) (request : AstraVfsRequest) :
    AstraVfsReply × AstraVfsService :=
  let reply := clearReply astraVfsVersion
  if request.session ≠ astraVfsSessionInvalid then
    match findSession s request.session with
    | none => ({ reply with status := .badHandle }, s)
    | some i =>
      let slot := s.sessions i
      if slot.owner ≠ owner ∨ slot.grant ≠ grant then ({ reply with status := .access }, s)
      else if slot.closing then ({ reply with status := .busy }, s)
      else ({ reply with status := .ok, session := slot.id, version := slot.version,
                         features := features }, s)
  else if owner ≠ 0 ∧ s.ownerSessionLimit ≠ 0 ∧
      s.ownerSessionLimit ≤ ((List.range s.sessionCapacity).filter fun i =>
        (s.sessions i).id ≠ astraVfsSessionInvalid ∧ (s.sessions i).owner = owner).length then
    ({ reply with status := .limit }, s)
  else
    match (List.range s.sessionCapacity).find? fun i => (s.sessions i).id = 0 with
    | none => ({ reply with status := .limit }, s)
    | some i =>
      let id := s.nextSession
      let next := (s.nextSession + 1) % 2 ^ 32
      let s := s.setSession i
        { s.sessions i with id := id, owner := owner, grant := grant, openFiles := 0,
                            version := reply.version, inflight := 0, closing := false }
      ({ reply with session := id, status := .ok, features := features },
        { s with nextSession := if next = 0 then 1 else next, openSessions := s.openSessions + 1,
                 sessionsOpened := s.sessionsOpened + 1 })

/-- The end of `reap_session`, for a slot whose files are gone. -/
def retireSession (s : AstraVfsService) (i : ℕ) : AstraVfsService :=
  { s.setSession i
      { s.sessions i with id := 0, owner := 0, grant := 0, openFiles := 0, inflight := 0,
                          closing := false } with
    openSessions := s.openSessions - 1 }

/-- The checks `handle_open` makes of its request. -/
def openInvalid (request : AstraVfsRequest) : Bool :=
  (request.flags &&& ~~~astraVfsOpenMask ≠ 0) ||
    (request.flags &&& astraVfsOpenExclusive ≠ 0 && request.flags &&& astraVfsOpenCreate = 0) ||
    (request.flags &&& astraVfsOpenCreate ≠ 0 && request.offset ≠ astraVfsModeDefault &&
      request.offset > astraVfsModeMask)

/-- The slot `handle_open` reserves, with the table grown by one where all are taken. -/
def openSlot (s : AstraVfsService) : Option ℕ × AstraVfsService :=
  match (List.range s.fileHighWater).find? fun f => (s.files f).state = .free with
  | some f => (if f ≥ s.fileCapacity then none else some f, s)
  | none =>
    if s.fileHighWater = s.fileCapacity then (none, s)
    else
      let f := s.fileHighWater
      (if f ≥ s.fileCapacity then none else some f,
        { s.setFile f { s.files f with
            node := 0, session := 0, flags := 0, sequence := 0, generation := 1, kind := .unknown,
            state := .free, active := false, retained := false } with
          fileHighWater := f + 1 })

/-- `handle_open` up to the backend: what it answers at once, or the slot it reserved. -/
def handleOpen (s : AstraVfsService) (session : ℕ) (request : AstraVfsRequest) :
    (AstraVfsStatus ⊕ ℕ × ℕ) × AstraVfsService :=
  match findSession s session with
  | none => (.inl .badHandle, s)
  | some i =>
    if openInvalid request then (.inl .invalid, s)
    else
      match openSlot s with
      | (none, s) => (.inl .limit, s)
      | (some f, s) =>
        let s := s.setFile f { s.files f with session := session, state := .opening }
        let s := s.setSession i { s.sessions i with openFiles := (s.sessions i).openFiles + 1 }
        (.inr (i, f), { s with openFiles := s.openFiles + 1 })

/-- What a call of the backend returns: its status and, where they apply, the node and kind of an
open and the bytes moved. -/
structure BackendAnswer where
  status : AstraVfsStatus
  node : ℕ
  kind : AstraVfsKind
  moved : ℕ
  deriving DecidableEq

/-- `handle_open` from the return of the backend on, for the reserved slot `f` of the session in
slot `i`; with the handle of the file. -/
def handleOpenDone (s : AstraVfsService) (session i f : ℕ) (flags : BitVec 32) (a : BackendAnswer) :
    AstraVfsStatus × ℕ × AstraVfsService :=
  if a.status ≠ .ok then
    let s := s.setFile f { s.files f with session := 0, state := .free }
    let s := s.setSession i { s.sessions i with openFiles := (s.sessions i).openFiles - 1 }
    (a.status, astraVfsFileInvalid, { s with openFiles := s.openFiles - 1 })
  else
    let handle := handleMake f (s.files f).generation
    let s := s.setFile f
      { s.files f with node := a.node, session := session, flags := flags, kind := a.kind,
                       state := .isOpen }
    (.ok, handle, { s with opens := s.opens ++ [⟨f, session, a.node, s.reuses f, handle, 0⟩],
                           opening := update s.opening f s.opens.length })

end Astra
