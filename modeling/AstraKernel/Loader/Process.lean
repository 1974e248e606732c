import AstraKernel.Compact
import AstraKernel.Precedence
import AstraKernel.Thread.Pool
import AstraKernel.Vfs.Normalise

/-!
# Dynamic processes

The closure of a program's dependencies (`dynamic_process.c`): prepared by opening every library
that is needed, relocated, and committed or rolled back. What the callbacks, the allocator and the
relocator answer is given; a trace keeps what was asked of them.
-/

namespace Astra

abbrev astraSyscallInvalidArgument : ℕ := 2
abbrev astraSyscallOutOfMemory : ℕ := 11
abbrev astraDynamicOk : ℕ := 0
abbrev astraDynamicInvalidArgument : ℕ := 1

/-- What the process reads of an image: its type, what `astra_dynamic_needed` answers for each entry
and what `astra_dynamic_soname` does; none where they fail. -/
structure AstraDynamicImage where
  elfType : UInt16
  needed : List (Option CString)
  soname : Option CString
  deriving DecidableEq

variable {Token : Type}

structure OpenAnswer (Token : Type) where
  status : ℕ
  image : AstraDynamicImage
  token : Option Token

/-- The answers of the callbacks, the allocator and the relocator to their calls, by number. -/
structure DynamicAnswers (Token : Type) where
  openImage : ℕ → CString → OpenAnswer Token
  finishImage : ℕ → Option Token → Bool → ℕ
  allocates : ℕ → Bool
  tlsLayout : ℕ → ℕ
  relocate : ℕ → ℕ
  tlsInitialize : ℕ → ℕ

structure DynamicFinish (Token : Type) where
  token : Option Token
  commit : Bool
  status : ℕ

/-- What was asked for so far: the identities opened, the tokens that were handed out, and how tokens
were finished. -/
structure DynamicTrace (Token : Type) where
  opened : List CString
  obtained : List Token
  finished : List (DynamicFinish Token)
  allocations : ℕ
  layouts : ℕ
  relocations : ℕ
  initializations : ℕ

def DynamicTrace.empty : DynamicTrace Token := ⟨[], [], [], 0, 0, 0, 0⟩

/-- The program is image zero; it has neither an identity nor a token. -/
structure AstraDynamicProcess (Token : Type) where
  images : List AstraDynamicImage
  identities : List (Option CString)
  tokens : List (Option Token)
  edges : List (ℕ × ℕ)
  lifecycle : List ℕ
  imageCapacity : ℕ
  identityCapacity : ℕ
  tokenCapacity : ℕ
  edgeCapacity : ℕ
  committed : Bool

/-- The new capacity. An array whose size in bytes does not fit is one that is not allocated. -/
def growArray (answers : DynamicAnswers Token) (trace : DynamicTrace Token) (capacity needed : ℕ) :
    Option ℕ × DynamicTrace Token :=
  if needed ≤ capacity then (some capacity, trace)
  else match doubleTo ((2 ^ 32 - 1) / 2) 34 (if capacity ≠ 0 then capacity else 4) needed with
  | none => (none, trace)
  | some next =>
    (if answers.allocates trace.allocations then some next else none,
      { trace with allocations := trace.allocations + 1 })

def growImages (answers : DynamicAnswers Token) (trace : DynamicTrace Token)
    (process : AstraDynamicProcess Token) (needed : ℕ) :
    Option (AstraDynamicProcess Token) × DynamicTrace Token :=
  match growArray answers trace process.imageCapacity needed with
  | (none, trace) => (none, trace)
  | (some imageCapacity, trace) =>
    match growArray answers trace process.identityCapacity needed with
    | (none, trace) => (none, trace)
    | (some identityCapacity, trace) =>
      match growArray answers trace process.tokenCapacity needed with
      | (none, trace) => (none, trace)
      | (some tokenCapacity, trace) => (some { process with
          imageCapacity := imageCapacity
          identityCapacity := identityCapacity
          tokenCapacity := tokenCapacity }, trace)

def findIdentity (process : AstraDynamicProcess Token) (identity : CString) : Option ℕ :=
  (List.range process.images.length).find? fun index =>
    1 ≤ index ∧ process.identities[index]? = some (some identity)

def appendEdge (answers : DynamicAnswers Token) (trace : DynamicTrace Token)
    (process : AstraDynamicProcess Token) (owner dependency : ℕ) :
    Option (AstraDynamicProcess Token) × DynamicTrace Token :=
  if (owner, dependency) ∈ process.edges then (some process, trace)
  else match growArray answers trace process.edgeCapacity (process.edges.length + 1) with
  | (none, trace) => (none, trace)
  | (some edgeCapacity, trace) => (some { process with
      edges := process.edges ++ [(owner, dependency)], edgeCapacity := edgeCapacity }, trace)

/-- A call of `finish_image`. -/
def finishToken (answers : DynamicAnswers Token) (trace : DynamicTrace Token) (token : Option Token)
    (commit : Bool) : ℕ × DynamicTrace Token :=
  let status := answers.finishImage trace.finished.length token commit
  (status, { trace with finished := trace.finished ++ [⟨token, commit, status⟩] })

/-- Tokens that are there are rolled back, the last one first. -/
def rollbackTokens (answers : DynamicAnswers Token) (trace : DynamicTrace Token) :
    List (Option Token) → DynamicTrace Token
  | [] => trace
  | token :: tokens =>
    let trace := rollbackTokens answers trace tokens
    if token.isSome then (finishToken answers trace token false).2 else trace

def rollback (answers : DynamicAnswers Token) (trace : DynamicTrace Token)
    (process : AstraDynamicProcess Token) : DynamicTrace Token :=
  rollbackTokens answers trace (process.tokens.drop 1)

def astraDynamicProcessDiscard (answers : DynamicAnswers Token) (trace : DynamicTrace Token)
    (process : AstraDynamicProcess Token) : DynamicTrace Token :=
  if process.committed = false then rollback answers trace process else trace

/-- The status where the process is discarded, the process, and the trace. -/
abbrev Preparation (Token : Type) :=
  Option ℕ × AstraDynamicProcess Token × DynamicTrace Token

/-- A library that is not there yet is opened, and is the last image then. -/
def openDependency (answers : DynamicAnswers Token) (trace : DynamicTrace Token)
    (process : AstraDynamicProcess Token) (identity : CString) : Preparation Token :=
  let answer := answers.openImage trace.opened.length identity
  let trace := { trace with opened := trace.opened ++ [identity] }
  if answer.status ≠ astraSyscallOk then (some answer.status, process, trace)
  else
    let trace := { trace with obtained := trace.obtained ++ answer.token.toList }
    if answer.token = none ∨ answer.image.soname ≠ some identity then
      (some astraSyscallInvalidArgument, process, (finishToken answers trace answer.token false).2)
    else match growImages answers trace process (process.images.length + 1) with
    | (none, trace) =>
      (some astraSyscallOutOfMemory, process, (finishToken answers trace answer.token false).2)
    | (some process, trace) => (none, { process with
        images := process.images ++ [answer.image]
        identities := process.identities ++ [answer.image.soname]
        tokens := process.tokens ++ [answer.token] }, trace)

def needDependency (answers : DynamicAnswers Token) (trace : DynamicTrace Token)
    (process : AstraDynamicProcess Token) (owner : ℕ) (identity : CString) : Preparation Token :=
  let connect := fun (process : AstraDynamicProcess Token) trace dependency =>
    match appendEdge answers trace process owner dependency with
    | (none, trace) => (some astraSyscallOutOfMemory, process, trace)
    | (some process, trace) => (none, process, trace)
  match findIdentity process identity with
  | some dependency => connect process trace dependency
  | none => match openDependency answers trace process identity with
    | (some status, process, trace) => (some status, process, trace)
    | (none, process, trace) => connect process trace (process.images.length - 1)

/-- The entries of one image. -/
def needAll (answers : DynamicAnswers Token) (owner : ℕ) : List (Option CString) →
    DynamicTrace Token → AstraDynamicProcess Token → Preparation Token
  | [], trace, process => (none, process, trace)
  | none :: _, trace, process => (some astraSyscallInvalidArgument, process, trace)
  | some identity :: needed, trace, process =>
    match needDependency answers trace process owner identity with
    | (some status, process, trace) => (some status, process, trace)
    | (none, process, trace) => needAll answers owner needed trace process

/-- The images, those that are opened on the way included. -/
def closeFrom (answers : DynamicAnswers Token) :
    ℕ → ℕ → DynamicTrace Token → AstraDynamicProcess Token → Option (Preparation Token)
  | 0, _, _, _ => none
  | fuel + 1, owner, trace, process =>
    match process.images[owner]? with
    | none => some (none, process, trace)
    | some image => match needAll answers owner image.needed trace process with
      | (some status, process, trace) => some (some status, process, trace)
      | (none, process, trace) => closeFrom answers fuel (owner + 1) trace process

def lifecycleBuild (answers : DynamicAnswers Token) (trace : DynamicTrace Token)
    (process : AstraDynamicProcess Token) :
    Option (AstraDynamicProcess Token) × DynamicTrace Token :=
  let next := { trace with allocations := trace.allocations + 2 }
  if answers.allocates trace.allocations = false ∨
      answers.allocates (trace.allocations + 1) = false then (none, next)
  else (((takeReady (List.range process.images.length) process.edges process.images.length []).map
    fun order => { process with lifecycle := order }), next)

/-- The images of the closure and the edges between them. An array of images has less than `2 ^ 32`
elements, so the loop over them ends. -/
def openClosure (answers : DynamicAnswers Token) (trace : DynamicTrace Token)
    (program : AstraDynamicImage) : Option (Preparation Token) :=
  let process : AstraDynamicProcess Token := ⟨[], [], [], [], [], 0, 0, 0, 0, false⟩
  match growImages answers trace process 1 with
  | (none, trace) => some (some astraSyscallOutOfMemory, process, trace)
  | (some process, trace) => closeFrom answers (2 ^ 32) 0 trace
      { process with images := [program], identities := [none], tokens := [none] }

def astraDynamicProcessPrepare (answers : DynamicAnswers Token) (program : AstraDynamicImage) :
    Option (ℕ × Option (AstraDynamicProcess Token) × DynamicTrace Token) :=
  let trace : DynamicTrace Token := .empty
  if program.elfType ≠ 2 then some (astraSyscallInvalidArgument, none, trace)
  else
    let allocated := answers.allocates trace.allocations
    let trace := { trace with allocations := trace.allocations + 1 }
    if allocated = false then some (astraSyscallOutOfMemory, none, trace)
    else match openClosure answers trace program with
    | none => none
    | some (some status, process, trace) =>
      some (status, none, astraDynamicProcessDiscard answers trace process)
    | some (none, process, trace) => match lifecycleBuild answers trace process with
      | (none, trace) =>
        some (astraSyscallInvalidArgument, none, astraDynamicProcessDiscard answers trace process)
      | (some process, trace) => some (astraSyscallOk, some process, trace)

/-- The relocations of the images from `index` on: the status, and the image that failed. -/
def relocateFrom (answers : DynamicAnswers Token) :
    ℕ → ℕ → DynamicTrace Token → ℕ × Option ℕ × DynamicTrace Token
  | 0, _, trace => (astraDynamicOk, none, trace)
  | left + 1, index, trace =>
    let status := answers.relocate trace.relocations
    let trace := { trace with relocations := trace.relocations + 1 }
    if status ≠ astraDynamicOk then (status, some index, trace)
    else relocateFrom answers left (index + 1) trace

def astraDynamicProcessRelocate (answers : DynamicAnswers Token) (trace : DynamicTrace Token)
    (process : AstraDynamicProcess Token) : ℕ × Option ℕ × DynamicTrace Token :=
  if process.committed then (astraDynamicInvalidArgument, none, trace)
  else
    let status := answers.tlsLayout trace.layouts
    let trace := { trace with layouts := trace.layouts + 1 }
    if status ≠ astraDynamicOk then (status, none, trace)
    else relocateFrom answers process.images.length 0 trace

/-- The images from some index on are committed; where that fails they are rolled back from the last
one on, the one that failed included. What is left of their tokens, and the status. -/
def commitTokens (answers : DynamicAnswers Token) :
    List (Option Token) → DynamicTrace Token → ℕ × DynamicTrace Token
  | [], trace => (astraSyscallOk, trace)
  | token :: tokens, trace =>
    match finishToken answers trace token true with
    | (status, trace) =>
      if status ≠ astraSyscallOk then (status, rollbackTokens answers trace (token :: tokens))
      else commitTokens answers tokens trace

/-- Either way there is no token left. -/
def astraDynamicProcessCommit (answers : DynamicAnswers Token) (trace : DynamicTrace Token)
    (process : AstraDynamicProcess Token) :
    ℕ × AstraDynamicProcess Token × DynamicTrace Token :=
  if process.committed then (astraSyscallInvalidArgument, process, trace)
  else
    let tokens := process.tokens.map fun _ => none
    match commitTokens answers (process.tokens.drop 1) trace with
    | (status, trace) =>
      if status ≠ astraSyscallOk then (status, { process with tokens := tokens }, trace)
      else (astraSyscallOk, { process with tokens := tokens, committed := true }, trace)

def astraDynamicProcessTlsInitialize (answers : DynamicAnswers Token)
    (trace : DynamicTrace Token) : ℕ × DynamicTrace Token :=
  (if answers.tlsInitialize trace.initializations = astraDynamicOk then astraSyscallOk
    else astraSyscallInvalidArgument, { trace with initializations := trace.initializations + 1 })

/-! ## Runs -/

inductive DynamicCall
  | relocate
  | tlsInitialize
  | commit
  deriving DecidableEq

def dynamicStep (answers : DynamicAnswers Token) :
    AstraDynamicProcess Token × DynamicTrace Token → DynamicCall →
      AstraDynamicProcess Token × DynamicTrace Token
  | (process, trace), .relocate => (process, (astraDynamicProcessRelocate answers trace process).2.2)
  | (process, trace), .tlsInitialize =>
    (process, (astraDynamicProcessTlsInitialize answers trace).2)
  | (process, trace), .commit => (astraDynamicProcessCommit answers trace process).2

/-- A process from its preparation on: the calls, and its end. What the process was when it was
discarded, and the trace. -/
def dynamicRun (answers : DynamicAnswers Token) (program : AstraDynamicImage)
    (calls : List DynamicCall) :
    Option (Option (AstraDynamicProcess Token) × DynamicTrace Token) :=
  match astraDynamicProcessPrepare answers program with
  | none => none
  | some (_, none, trace) => some (none, trace)
  | some (_, some process, trace) =>
    let ended := calls.foldl (dynamicStep answers) (process, trace)
    some (some ended.1, astraDynamicProcessDiscard answers ended.2 ended.1)

end Astra
