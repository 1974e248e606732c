import AstraKernel.Config.Library

/-!
# Processes and their files

Any number of processes read and write one document. A step is one call of the file service, which
may fail; a process may die at any point, which releases its lock.
-/

namespace Astra

abbrev configLockAttempts : ℕ := 5000

/-- A call of the file service that has failed. -/
structure VfsFailure where
  status : AstraVfsStatus
  failed : status ≠ .ok

/-- The files of one owner: what each file holds, which is `settings.conf` and which
`.settings.tmp`, and who has the lock. -/
structure ConfigFiles where
  contents : ℕ → List UInt8
  settings : Option ℕ
  temporary : Option ℕ
  next : ℕ
  lock : Option ℕ

/-- A write under way; `seen` is the text that the handle had when it was called. -/
structure ConfigWrite where
  request : ConfigRequest
  unchanged : Bool
  seen : List UInt8

/-- What a text is loaded for. -/
inductive ConfigUse
  | opening
  | reloading
  | writing (w : ConfigWrite)

/-- Where a process is, with what it has found. -/
inductive ConfigPc
  | closed
  | idle
  -- load
  | load (use : ConfigUse)
  | read (use : ConfigUse) (node size : ℕ) (text : List UInt8)
  | closeFile (use : ConfigUse) (text : Except AstraConfigLibraryStatus (List UInt8))
  -- begin_write
  | openLock (w : ConfigWrite)
  | tryLock (w : ConfigWrite) (attempts : ℕ)
  | asleep (w : ConfigWrite) (attempts : ℕ)
  | closeLock (held : Bool) (status : AstraConfigLibraryStatus)
  | edit (w : ConfigWrite)
  -- commit
  | unlink (w : ConfigWrite) (text : List UInt8)
  | create (w : ConfigWrite) (text : List UInt8)
  | write (w : ConfigWrite) (text : List UInt8) (node used : ℕ)
  | sync (w : ConfigWrite) (text : List UInt8)
  | closeTemporary (w : ConfigWrite) (text : List UInt8) (status : AstraConfigLibraryStatus)
  | rename (w : ConfigWrite) (text : List UInt8)
  | clean (status : AstraConfigLibraryStatus)
  | endWrite (status : AstraConfigLibraryStatus)

/-- A process with its handle: the text of the handle, and whether it was opened for writing. For
the statements there is the document that it has opened last, and whether the call under way has
renamed its file. -/
structure ConfigProcess where
  pc : ConfigPc
  text : List UInt8
  writable : Bool
  opened : List UInt8
  committed : Bool

structure ConfigSystem where
  files : ConfigFiles
  processes : ℕ → ConfigProcess

/-- What happens next: a call of the library, how the call of the file service ends that comes
next, or the end of the process. -/
inductive ConfigAction
  | openHandle (writable : Bool)
  | reload
  | request (r : ConfigRequest) (unchanged : Bool)
  | ok
  | fail (f : VfsFailure)
  | moved (count : ℕ)
  | noMemory
  | slept (early : Bool)
  | edited (answers : ConfigAnswers)
  -- a close that has failed, and has released the lock all the same
  | failClosed (f : VfsFailure)
  | die

namespace ConfigFiles

variable (f : ConfigFiles)

/-- The document; where there is none, the one that a writer starts from. -/
def document (version : ℕ) : List UInt8 :=
  match f.settings with
  | none => initialDocument version
  | some node => f.contents node

/-- The temporary file, opened to be written from its start. -/
def created : ConfigFiles × ℕ :=
  match f.temporary with
  | some node => ({ f with contents := Function.update f.contents node [] }, node)
  | none => ({ f with
      contents := Function.update f.contents f.next []
      temporary := some f.next
      next := f.next + 1 }, f.next)

def written (node used : ℕ) (bytes : List UInt8) : ConfigFiles :=
  let old := f.contents node
  { f with
    contents := Function.update f.contents node
      (old.take used ++ bytes ++ old.drop (used + bytes.length)) }

def released (held : Bool) : ConfigFiles := if held then { f with lock := none } else f

end ConfigFiles

namespace ConfigProcess

variable (c : ConfigProcess)

def goto (pc : ConfigPc) : ConfigProcess := { c with pc := pc }

/-- `load` has no text for its caller. -/
def refused (status : AstraConfigLibraryStatus) : ConfigUse → ConfigProcess
  | .opening => c.goto .closed
  | .reloading => c.goto .idle
  | .writing _ => c.goto (.closeLock true status)

/-- `load` has a text: the handle has it from now on. -/
def loaded (text : List UInt8) : ConfigUse → ConfigProcess
  | .opening => { c with pc := .idle, text := text }
  | .reloading => { c with pc := .idle, text := text }
  | .writing w =>
    { c with
      pc := if w.unchanged ∧ c.text ≠ text then .closeLock true .conflict else .edit w
      text := text }

/-- The end of `load`, when the file is closed. -/
def checked (schema : AstraConfigSchema) (use : ConfigUse)
    (text : Except AstraConfigLibraryStatus (List UInt8)) : ConfigProcess :=
  match text with
  | .error status => c.refused status use
  | .ok text =>
    let status := (astraConfigDocumentValidate text schema.version).1
    if status = .ok then c.loaded text use else c.refused (ofDocument status) use

/-- The next step of the process `p`; none where the action is not one that can happen there. -/
def step (schema : AstraConfigSchema) (p : ℕ) (f : ConfigFiles) (action : ConfigAction) :
    Option (ConfigFiles × ConfigProcess) :=
  match c.pc, action with
  | .closed, .openHandle writable =>
    some (f, { c with pc := .load .opening, writable := writable, committed := false })
  | .idle, .reload => some (f, c.goto (.load .reloading))
  | .idle, .request r unchanged =>
    if r.valid schema = false ∨ c.writable = false then some (f, { c with committed := false })
    else some (f, { c with pc := .openLock ⟨r, unchanged, c.text⟩, committed := false })
  | .load use, .ok =>
    match f.settings with
    | none =>
      some (f, if c.writable then c.loaded (initialDocument schema.version) use
        else c.refused .notFound use)
    | some node =>
      let size := (f.contents node).length
      some (f, { c with
        pc := if size > 2 ^ 32 - 2 then .closeFile use (.error .invalid) else .read use node size []
        opened := f.contents node })
  | .load use, .noMemory =>
    some (f, if f.settings.isNone then c.refused .noMemory use
      else c.goto (.closeFile use (.error .noMemory)))
  -- `NOT_FOUND` is that there is no file
  | .load use, .fail failure =>
    if failure.status = .notFound then none
    else some (f, c.refused (ofVfs failure.status) use)
  | .read use node size text, .moved count =>
    if text.length < size ∧ 0 < count ∧ text.length + count ≤ size ∧
        text.length + count ≤ (f.contents node).length then
      some (f, c.goto (.read use node size
        (text ++ ((f.contents node).drop text.length).take count)))
    else none
  | .read use _ size text, .ok =>
    if text.length = size then some (f, c.goto (.closeFile use (.ok text))) else none
  | .read use _ _ _, .fail failure =>
    some (f, c.goto (.closeFile use (.error (ofVfs failure.status))))
  | .closeFile use text, .ok => some (f, c.checked schema use text)
  | .closeFile use text, .fail failure =>
    some (f, c.refused (match text with
      | .error status => status
      | .ok _ => ofVfs failure.status) use)
  | .openLock w, .ok => some (f, c.goto (.tryLock w configLockAttempts))
  | .openLock _, .fail _ => some (f, c.goto .idle)
  | .tryLock _ 0, .ok => some (f, c.goto (.closeLock false .busy))
  | .tryLock w (_ + 1), .ok =>
    if f.lock = none then some ({ f with lock := some p }, c.goto (.load (.writing w))) else none
  | .tryLock w (attempts + 1), .fail failure =>
    some (f, c.goto (if failure.status = .busy then .asleep w attempts
      else .closeLock false (ofVfs failure.status)))
  | .asleep w attempts, .slept early =>
    some (f, c.goto (if early then .closeLock false .io else .tryLock w attempts))
  | .closeLock held _, .ok => some (f.released held, c.goto .idle)
  | .closeLock _ _, .fail _ => some (f, c.goto .idle)
  | .closeLock held _, .failClosed _ => some (f.released held, c.goto .idle)
  | .edit w, .edited answers =>
    match w.request.edited schema answers c.text with
    | none => none
    | some (.error status) => some (f, c.goto (.endWrite status))
    | some (.ok text) => some (f, c.goto (.unlink w text))
  | .unlink w text, .ok => some ({ f with temporary := none }, c.goto (.create w text))
  | .unlink _ _, .fail failure => some (f, c.goto (.clean (ofVfs failure.status)))
  | .create w text, .ok => some (f.created.1, c.goto (.write w text f.created.2 0))
  | .create _ _, .fail failure => some (f, c.goto (.clean (ofVfs failure.status)))
  | .write w text node used, .moved count =>
    if used < text.length ∧ 0 < count ∧ used + count ≤ text.length then
      some (f.written node used ((text.drop used).take count),
        c.goto (.write w text node (used + count)))
    else none
  | .write w text _ used, .ok =>
    if used = text.length then some (f, c.goto (.sync w text)) else none
  | .write w text _ _, .fail failure =>
    some (f, c.goto (.closeTemporary w text (ofVfs failure.status)))
  | .sync w text, .ok => some (f, c.goto (.closeTemporary w text .ok))
  | .sync w text, .fail failure =>
    some (f, c.goto (.closeTemporary w text (ofVfs failure.status)))
  | .closeTemporary w text status, .ok =>
    some (f, c.goto (if status = .ok then .rename w text else .clean status))
  | .closeTemporary _ _ status, .fail failure =>
    some (f, c.goto (.clean (if status = .ok then ofVfs failure.status else status)))
  | .rename _ text, .ok =>
    match f.temporary with
    | none => none
    | some node => some ({ f with settings := some node, temporary := none },
        { c with pc := .endWrite .ok, text := text, committed := true })
  | .rename _ _, .fail failure => some (f, c.goto (.clean (ofVfs failure.status)))
  | .clean status, .ok => some ({ f with temporary := none }, c.goto (.endWrite status))
  | .clean status, .fail _ => some (f, c.goto (.endWrite status))
  | .endWrite _, .ok => some (f.released true, c.goto .idle)
  | .endWrite _, .fail _ => some (f, c.goto .idle)
  | .endWrite _, .failClosed _ => some (f.released true, c.goto .idle)
  | _, .die => some (f.released (f.lock = some p), c.goto .closed)
  | _, _ => none

/-- What the call answers that ends with the step. -/
def answer (schema : AstraConfigSchema) : ConfigPc → ConfigAction → Option AstraConfigLibraryStatus
  | .idle, .request r _ =>
    if r.valid schema = false then some .invalid
    else if c.writable = false then some .access
    else none
  | .openLock _, .fail failure => some (ofVfs failure.status)
  | .closeLock _ status, .ok => some status
  | .closeLock _ status, .fail _ => some status
  | .closeLock _ status, .failClosed _ => some status
  | .endWrite status, .ok => some status
  | .endWrite status, .fail failure =>
    some (if status = .ok then ofVfs failure.status else status)
  | .endWrite status, .failClosed failure =>
    some (if status = .ok then ofVfs failure.status else status)
  | _, _ => none

end ConfigProcess

def ConfigSystem.step (schema : AstraConfigSchema) (s : ConfigSystem) (p : ℕ)
    (action : ConfigAction) : Option ConfigSystem :=
  ((s.processes p).step schema p s.files action).map fun r =>
    ⟨r.1, Function.update s.processes p r.2⟩

end Astra
