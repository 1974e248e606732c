import AstraKernel.Vfs.Step
import Mathlib.Data.Nat.Bitwise

/-!
# What the calls under way own

Between two stretches a call keeps the session slot it has reserved, the files it has taken, the
slot it opens a file in, the file it closes. `VfsSound` ties these to the tables: each slot has at
most one call that has taken, opens or closes it, and the counts of the service are those of its
tables.
-/

namespace Astra

open Function

theorem handleMake_eq {f : ℕ} (hf : f + 1 < 65536) (g : ℕ) :
    handleMake f g = g * 65536 + (f + 1) := by
  rw [handleMake, ← Nat.shiftLeft_add_eq_or_of_lt (by simpa using hf), Nat.shiftLeft_eq]

theorem handle_and (h : ℕ) : h &&& 0xffff = h % 65536 := by
  simpa using Nat.and_two_pow_sub_one_eq_mod h 16

theorem handleGeneration_eq (h : ℕ) : handleGeneration h = h / 65536 := by
  rw [handleGeneration, Nat.shiftRight_eq_div_pow]

theorem handleSlot_make {f : ℕ} (hf : f + 1 < 65536) (g : ℕ) : handleSlot (handleMake f g) = f := by
  rw [handleSlot, handle_and, handleMake_eq hf]
  omega

theorem handleGeneration_make {f : ℕ} (hf : f + 1 < 65536) (g : ℕ) :
    handleGeneration (handleMake f g) = g := by
  rw [handleGeneration_eq, handleMake_eq hf]
  omega

theorem handleMake_of_parts {h : ℕ} (hn : h &&& 0xffff ≠ 0) :
    handleMake (handleSlot h) (handleGeneration h) = h := by
  rw [handle_and] at hn
  have hs : handleSlot h = h % 65536 - 1 := by rw [handleSlot, handle_and]
  rw [handleMake_eq (by omega), hs, handleGeneration_eq]
  omega

def generationAfter : ℕ → ℕ
  | 0 => 1
  | n + 1 => nextGeneration (generationAfter n)

theorem generationAfter_eq : ∀ {n : ℕ}, n < 65535 → generationAfter n = n + 1
  | 0, _ => rfl
  | n + 1, h => by
    rw [generationAfter, generationAfter_eq (by omega), nextGeneration]
    simp only [Nat.mod_eq_of_lt (show n + 1 + 1 < 65536 by omega)]
    simp

theorem generationAfter_inj {m n : ℕ} (hm : m < 65535) (hn : n < 65535)
    (h : generationAfter m = generationAfter n) : m = n := by
  rw [generationAfter_eq hm, generationAfter_eq hn] at h
  omega

structure HeldFile where
  f : ℕ
  node : ℕ
  name : FileName

structure OpeningFile where
  f : ℕ
  slot : ℕ
  session : ℕ

structure ClosingFile where
  f : ℕ
  closer : Closer
  backend : Option ℕ

structure WaitedFile where
  f : ℕ
  generation : ℕ
  allowed : AstraVfsFileState
  name : FileName

@[ext]
structure VfsOwned where
  slots : Multiset ℕ
  held : Multiset HeldFile
  opening : Multiset OpeningFile
  closing : Multiset ClosingFile
  waits : Multiset WaitedFile
  tokens : Multiset ℕ

def FileName.id : FileName → ℕ
  | .handle _ h => h
  | .token t => t

namespace VfsOwned

def reserve (R : VfsOwned) (i : ℕ) : VfsOwned := { R with slots := i ::ₘ R.slots }

def hold (R : VfsOwned) (h : HeldFile) : VfsOwned := { R with held := h ::ₘ R.held }

def open_ (R : VfsOwned) (e : OpeningFile) : VfsOwned := { R with opening := e ::ₘ R.opening }

def close (R : VfsOwned) (e : ClosingFile) : VfsOwned := { R with closing := e ::ₘ R.closing }

def wait (R : VfsOwned) (e : WaitedFile) : VfsOwned := { R with waits := e ::ₘ R.waits }

def token (R : VfsOwned) (t : ℕ) : VfsOwned := { R with tokens := t ::ₘ R.tokens }

def holdAll (R : VfsOwned) (l : List HeldFile) : VfsOwned := l.foldr (fun h R => R.hold h) R

def at_ (R : VfsOwned) (f : ℕ) : VfsOwned where
  slots := 0
  held := R.held.filter (·.f = f)
  opening := R.opening.filter (·.f = f)
  closing := R.closing.filter (·.f = f)
  waits := R.waits.filter (·.f = f)
  tokens := R.tokens.filter (handleSlot · = f)

end VfsOwned

def Frame.over (R : VfsOwned) : Frame → VfsOwned
  | .request frame => R.reserve frame.slot
  | .direct i => R.reserve i
  | .batch i frame => (R.reserve frame.slot).reserve i
  | .retained => R

def After.over (R : VfsOwned) : After → VfsOwned
  | .batch frame _ => R.reserve frame.slot
  | _ => R

def Closer.over (R : VfsOwned) : Closer → VfsOwned
  | .request frame => R.reserve frame.slot
  | .reap _ _ after => after.over R
  | .release _ => R

/-- The base a path operation has taken in slot and node `base`, by a handle of its request. -/
def baseFile (session handle : ℕ) (base : Option (ℕ × ℕ)) : List HeldFile :=
  base.toList.map fun b => ⟨b.1, b.2, .handle session handle⟩

def PathBases.files (bases : PathBases) (session first second : ℕ) : List HeldFile :=
  baseFile session first bases.first ++ baseFile session second bases.second

def Purpose.over (R : VfsOwned) : Purpose → VfsOwned
  | .work frame _ _ => frame.over R
  | .openAt frame _ _ | .firstBase frame _ _ => R.reserve frame.slot
  | .secondBase frame session request first =>
    (R.reserve frame.slot).holdAll (baseFile session request.file first)

def VfsPoint.over (R : VfsOwned) : VfsPoint → VfsOwned
  | .waitFile purpose f generation allowed _ =>
    (purpose.over R).wait ⟨f, generation, allowed, purpose.name⟩
  | .fileCall frame name _ f node => (frame.over R).hold ⟨f, node, name⟩
  | .openCall frame session request i f directory =>
    ((R.reserve frame.slot).holdAll (baseFile session request.file directory)).open_
      ⟨f, i, session⟩
  | .pathCall frame session request bases =>
    (R.reserve frame.slot).holdAll
      (bases.files session request.file (secondId frame.operation request))
  | .plainCall frame => R.reserve frame.slot
  | .waitIdle closer f _ => (closer.over R).close ⟨f, closer, none⟩
  | .closeCall closer f node => (closer.over R).close ⟨f, closer, some node⟩
  | .batchEnter frame _ _ => R.reserve frame.slot
  | .batchLeave frame _ => R.reserve frame.slot
  | .grant _ _ => R
  | .grantSession _ _ _ => R

def ownedBy (tokens : List ℕ) (points : List VfsPoint) : VfsOwned :=
  points.foldr (fun p R => p.over R) ⟨0, 0, 0, 0, 0, tokens⟩

def AstraVfsOpenFile.Live (file : AstraVfsOpenFile) : Prop :=
  file.state ≠ .free ∧ file.state ≠ .opening

instance (file : AstraVfsOpenFile) : Decidable file.Live :=
  inferInstanceAs (Decidable (_ ∧ _))

def Holds (file : AstraVfsOpenFile) (f : ℕ) (h : HeldFile) : Prop :=
  file.Live ∧ file.node = h.node ∧ h.name.id = handleMake f file.generation ∧
    ∀ session handle, h.name = .handle session handle → file.session = session ∧ session ≠ 0

def Closes (file : AstraVfsOpenFile) (f : ℕ) (e : ClosingFile) : Prop :=
  (∀ node, e.backend = some node → file.active = false ∧ file.node = node) ∧
    match e.closer with
    | .release token =>
      file.session = 0 ∧ file.retained = true ∧ token = handleMake f file.generation
    | .request _ => file.session ≠ 0 ∧ (e.backend ≠ none → file.retained = false)
    | .reap _ session _ =>
      session ≠ 0 ∧ file.session = session ∧ (e.backend ≠ none → file.retained = false)

/-- A call that waits for the file: unless the slot was given up since, it holds the file that the
call named. -/
def FileWaits (s : AstraVfsService) (f : ℕ) (file : AstraVfsOpenFile) (e : WaitedFile) : Prop :=
  f < s.fileHighWater ∧ (e.allowed = .isOpen ∨ e.allowed = .detached) ∧
    (∀ session handle, e.name = .handle session handle → e.allowed = .isOpen) ∧
    e.name.id = handleMake f e.generation ∧
    ∃ use ≤ s.reuses f, e.generation = generationAfter use ∧
      (s.reuses f = use → file.Live ∧ ∀ session handle, e.name = .handle session handle →
        file.session = session ∨ file.session = 0)

/-- The open of the backend that a slot holds the node of, closed when the call that closes the file
has come to the backend. -/
def Current (s : AstraVfsService) (crew : VfsOwned) (f : ℕ) (file : AstraVfsOpenFile)
    (o : BackendOpen) : Prop :=
  s.opens[s.opening f]? = some o ∧ o.slot = f ∧ o.node = file.node ∧ o.use = s.reuses f ∧
    (file.session ≠ 0 → o.session = file.session) ∧
    o.closes = crew.closing.countP (·.backend ≠ none)

structure SlotSound (s : AstraVfsService) (crew : VfsOwned) (f : ℕ) (file : AstraVfsOpenFile) :
    Prop where
  held : crew.held.card = file.active.toNat
  opening : crew.opening.card = if file.state = .opening then 1 else 0
  closing : crew.closing.card = if file.state = .closing then 1 else 0
  tokens : crew.tokens =
    if file.retained then {handleMake f file.generation} else 0
  idle : ¬ file.Live → file.active = false ∧ file.retained = false
  free : file.state = .free → file.session = 0
  owned : file.state = .isOpen ∨ file.state = .opening → file.session ≠ 0
  detached : file.state = .detached →
    file.session = 0 ∧ file.retained = true
  beyond : s.fileHighWater ≤ f → file.state = .free ∧ s.reuses f = 0
  generation : f < s.fileHighWater → file.generation = generationAfter (s.reuses f)
  session : file.session ≠ 0 →
    ∃ i < s.sessionCapacity, (s.sessions i).id = file.session
  current : file.Live → ∃ o, Current s crew f file o
  holds : ∀ h ∈ crew.held, Holds file f h
  opens : ∀ e ∈ crew.opening, e.slot < s.sessionCapacity ∧
    (s.sessions e.slot).id = file.session ∧ e.session = file.session
  closes : ∀ e ∈ crew.closing, Closes file f e
  waits : ∀ e ∈ crew.waits, FileWaits s f file e

def Reaping (s : AstraVfsService) (i session : ℕ) : Prop :=
  i < s.sessionCapacity ∧ (s.sessions i).id = session ∧ (s.sessions i).closing = true ∧
    (s.sessions i).inflight = 0

def OpenSettled (s : AstraVfsService) (k : ℕ) (o : BackendOpen) : Prop :=
  s.opening o.slot = k ∧ (s.files o.slot).Live ∧ o.use = s.reuses o.slot ∨
    o.closes = 1 ∧ o.use < s.reuses o.slot

structure SessionTable (s : AstraVfsService) : Prop where
  ids : ∀ i < s.sessionCapacity, ∀ j < s.sessionCapacity, (s.sessions i).id = (s.sessions j).id →
    (s.sessions i).id ≠ 0 → i = j
  issued : ∀ i < s.sessionCapacity, (s.sessions i).id ≤ s.sessionsOpened
  next : s.sessionsOpened < 2 ^ 32 - 1 → s.nextSession = s.sessionsOpened + 1
  live : s.openSessions =
    ((Finset.range s.sessionCapacity).filter fun i => (s.sessions i).id ≠ 0).card

structure OpensSound (s : AstraVfsService) : Prop where
  settled : ∀ (k : ℕ) (o : BackendOpen), s.opens[k]? = some o → OpenSettled s k o
  distinct : ∀ (k k' : ℕ) (o o' : BackendOpen), s.opens[k]? = some o → s.opens[k']? = some o' →
    o.slot = o'.slot → o.use = o'.use → k = k'
  handles : ∀ (k : ℕ) (o : BackendOpen), s.opens[k]? = some o → o.slot < s.fileHighWater ∧
    o.session ≠ 0 ∧ o.handle = handleMake o.slot (generationAfter o.use)

structure VfsSound (s : AstraVfsService) (T : VfsOwned) : Prop where
  slot : ∀ f, SlotSound s (T.at_ f) f (s.files f)
  inflight : ∀ i, (s.sessions i).inflight = T.slots.count i
  reserved : ∀ i ∈ T.slots, i < s.sessionCapacity ∧ (s.sessions i).id ≠ 0
  reaps : ∀ e ∈ T.closing, ∀ i session after, e.closer = .reap i session after → Reaping s i session
  sessions : SessionTable s
  openFiles : s.openFiles =
    ((Finset.range s.fileHighWater).filter fun f => (s.files f).state ≠ .free).card
  sessionFiles : ∀ i < s.sessionCapacity, (s.sessions i).id ≠ 0 → (s.sessions i).openFiles =
    ((Finset.range s.fileHighWater).filter fun f => (s.files f).session = (s.sessions i).id).card
  opens : OpensSound s
  capacity : s.fileHighWater ≤ s.fileCapacity ∧ s.fileCapacity ≤ astraVfsFileHandleMax

end Astra
