import AstraKernel.Thread.Step

/-!
# The synchronization objects

Events, semaphores and waitable timers, in a directory of leaves of 64 objects. An object is named
by its slot, and its queue of waiters is a queue of the thread pool. Armed timers are in a binary
heap, least deadline first and then least slot, and an armed timer knows its position in it.

Whether the allocator grants what a call asks for is an argument of the call; its accounts, the
frames of a leaf and statistics that no function reads are left out.
-/

namespace Astra

open Function

abbrev kernelSyncObjectMax : ℕ := 65535
abbrev kernelSyncReferenceMax : ℕ := 65535
abbrev kernelSyncSemaphoreCountMax : ℕ := 0x7fffffff
abbrev syncLeafEntries : ℕ := 64
abbrev syncLeafCount : ℕ := (kernelSyncObjectMax + syncLeafEntries - 1) / syncLeafEntries
abbrev timerHeapLeafEntries : ℕ := 2048
abbrev timerHeapLeafCount : ℕ :=
  (kernelSyncObjectMax + timerHeapLeafEntries - 1) / timerHeapLeafEntries
abbrev kernelSyncEventManualReset : BitVec 32 := 1
abbrev kernelSyncEventInitiallySignaled : BitVec 32 := 2
abbrev kernelSyncEventFlags : BitVec 32 :=
  kernelSyncEventManualReset ||| kernelSyncEventInitiallySignaled

inductive KernelSyncType
  | none | eventAuto | eventManual | semaphore | timer
  deriving DecidableEq, Repr

inductive KernelSyncState
  | free | live | closing
  deriving DecidableEq, Repr

inductive KernelSyncStatus
  | ok | blocked | timedOut | closed | invalidArgument | invalidState | noSlot | waiterLimit
  | countLimit | corrupt
  deriving DecidableEq, Repr

/-- `slot` is the object's name, and `waiters` the queue `syncQueue` of it. -/
structure KernelSyncObject where
  owner : ℕ
  generation : ℕ
  count : ℕ
  maximum : ℕ
  closeResult : ℕ
  deadline : ℕ
  references : ℕ
  timerPosition : Option ℕ
  type : KernelSyncType
  state : KernelSyncState
  deriving DecidableEq, Repr

def syncQueue (n : ℕ) : QueueRef := .object n

/-- The thread pool, and the objects over it; `timerHeap` is `timer_heap_get` of the positions below
`timer_count`. -/
structure SyncState where
  pool : Pool
  object : ℕ → KernelSyncObject
  objectDirectory : ℕ → Bool
  timerHeapDirectory : ℕ → Bool
  timerHeap : List ℕ
  objectBackedLimit : ℕ
  nextObjectSlot : ℕ
  activeObjectCount : ℕ
  nextObjectGeneration : ℕ
  poolCorrupt : Bool

def SyncState.setObject (s : SyncState) (n : ℕ) (f : KernelSyncObject → KernelSyncObject) :
    SyncState :=
  { s with object := update s.object n (f (s.object n)) }

def SyncState.withPool (s : SyncState) (p : Pool) : SyncState :=
  { s with pool := p }

def SyncState.corrupted (s : SyncState) : SyncState :=
  { s with poolCorrupt := true }

/-- What `allocate_sync_metadata` leaves in a leaf's slot. -/
def freeSyncObject (generation : ℕ) : KernelSyncObject where
  owner := 0
  generation := generation
  count := 0
  maximum := 0
  closeResult := 0
  deadline := 0
  references := 0
  timerPosition := none
  type := .none
  state := .free

def kernelSyncPoolInit (p : Pool) : SyncState where
  pool := p
  object _ := freeSyncObject 1
  objectDirectory _ := false
  timerHeapDirectory _ := false
  timerHeap := []
  objectBackedLimit := 0
  nextObjectSlot := 0
  activeObjectCount := 0
  nextObjectGeneration := 0
  poolCorrupt := false

/-- `valid_object_pointer`: the slot's leaf is there. -/
def validObjectPointer (s : SyncState) (n : ℕ) : Prop :=
  n < kernelSyncObjectMax ∧ s.objectDirectory (n / syncLeafEntries) = true

instance (s : SyncState) (n : ℕ) : Decidable (validObjectPointer s n) :=
  inferInstanceAs (Decidable (_ ∧ _))

def validLiveObject (s : SyncState) (n : ℕ) : Prop :=
  validObjectPointer s n ∧ (s.object n).state = .live ∧ (s.object n).type ≠ .none
    ∧ (s.object n).owner ≠ 0 ∧ (s.object n).generation ≠ 0 ∧ (s.object n).references ≠ 0
    ∧ (s.object n).closeResult = 0
    ∧ kernelThreadWaitQueueCount s.pool (syncQueue n) ≠ uint32Max
    ∧ if (s.object n).type = .semaphore then
        (s.object n).maximum ≠ 0 ∧ (s.object n).maximum ≤ kernelSyncSemaphoreCountMax
          ∧ (s.object n).count ≤ (s.object n).maximum
      else (s.object n).maximum = 1 ∧ (s.object n).count ≤ 1

instance (s : SyncState) (n : ℕ) : Decidable (validLiveObject s n) :=
  inferInstanceAs (Decidable (_ ∧ _))

/-- The entries of a new leaf: each is free, and its queue is one that no one waits on. -/
def SyncState.addLeaf (s : SyncState) (leafIndex : ℕ) : SyncState :=
  let inLeaf (n : ℕ) : Bool := n < kernelSyncObjectMax ∧ n / syncLeafEntries = leafIndex
  { s with
    object := fun n => if inLeaf n then freeSyncObject 1 else s.object n
    objectDirectory := update s.objectDirectory leafIndex true
    objectBackedLimit :=
      max s.objectBackedLimit (min ((leafIndex + 1) * syncLeafEntries) kernelSyncObjectMax)
    pool := { s.pool with waits := { s.pool.waits with
      queue := fun q =>
        match q with
        | .object n => if inLeaf n then kernelThreadWaitQueueInit else s.pool.waits.queue q
        | _ => s.pool.waits.queue q } } }

/-- `ensure_object_leaf`; `memory` is whether the frames of a new leaf are granted. -/
def ensureObjectLeaf (s : SyncState) (slot : ℕ) (memory : Bool) : Bool × SyncState :=
  let leafIndex := slot / syncLeafEntries
  if s.objectDirectory leafIndex then (true, s)
  else if memory then (true, s.addLeaf leafIndex)
  else (false, s)

def timerLess (s : SyncState) (left right : ℕ) : Prop :=
  (s.object left).deadline < (s.object right).deadline
    ∨ ((s.object left).deadline = (s.object right).deadline ∧ left < right)

instance (s : SyncState) (left right : ℕ) : Decidable (timerLess s left right) :=
  inferInstanceAs (Decidable (_ ∨ _))

/-- `timer_less` of the slots at two positions of the heap. -/
def timerLessAt (s : SyncState) (left right : ℕ) : Bool :=
  match s.timerHeap[left]?, s.timerHeap[right]? with
  | some leftSlot, some rightSlot => timerLess s leftSlot rightSlot
  | _, _ => false

def timerHeapSwap (s : SyncState) (left right : ℕ) : SyncState :=
  match s.timerHeap[left]?, s.timerHeap[right]? with
  | some leftSlot, some rightSlot =>
    let s := { s with timerHeap := (s.timerHeap.set left rightSlot).set right leftSlot }
    (s.setObject leftSlot fun o => { o with timerPosition := some right }).setObject rightSlot
      fun o => { o with timerPosition := some left }
  | _, _ => s

/-- `timer_sift_up`; every turn at least halves the position, so the heap's length is fuel. -/
def timerSiftUp : ℕ → SyncState → ℕ → SyncState
  | 0, s, _ => s
  | fuel + 1, s, position =>
    if position = 0 then s
    else
      let parent := (position - 1) / 2
      if timerLessAt s position parent = false then s
      else timerSiftUp fuel (timerHeapSwap s position parent) parent

/-- `timer_sift_down`; every turn goes down a level, so the heap's length is fuel. -/
def timerSiftDown : ℕ → SyncState → ℕ → SyncState
  | 0, s, _ => s
  | fuel + 1, s, position =>
    let left := position * 2 + 1
    let right := left + 1
    let smallest :=
      if left < s.timerHeap.length ∧ timerLessAt s left position then left else position
    let smallest :=
      if right < s.timerHeap.length ∧ timerLessAt s right smallest then right else smallest
    if smallest = position then s
    else timerSiftDown fuel (timerHeapSwap s position smallest) smallest

def timerRemove (s : SyncState) (slot : ℕ) : Bool × SyncState :=
  if ¬ validObjectPointer s slot then (false, s)
  else
    match (s.object slot).timerPosition with
    | none => (true, s)
    | some position =>
      if s.timerHeap.length ≤ position ∨ s.timerHeap[position]? ≠ some slot then (false, s)
      else
        let last := s.timerHeap.length - 1
        let s := if position ≠ last then timerHeapSwap s position last else s
        let s := { s with timerHeap := s.timerHeap.dropLast }
        let s := s.setObject slot fun o => { o with timerPosition := none, deadline := 0 }
        if position < s.timerHeap.length then
          if position ≠ 0 ∧ timerLessAt s position ((position - 1) / 2) then
            (true, timerSiftUp s.timerHeap.length s position)
          else (true, timerSiftDown s.timerHeap.length s position)
        else (true, s)

/-- `timer_insert`; `memory` is whether the frame of a new leaf of the heap is granted. -/
def timerInsert (s : SyncState) (slot deadline : ℕ) (memory : Bool) :
    KernelSyncStatus × SyncState :=
  let leafIndex := s.timerHeap.length / timerHeapLeafEntries
  if ¬ validObjectPointer s slot ∨ (s.object slot).timerPosition ≠ none
      ∨ kernelSyncObjectMax ≤ s.timerHeap.length then
    (.corrupt, s)
  else if s.timerHeapDirectory leafIndex = false ∧ memory = false then (.noSlot, s)
  else
    let position := s.timerHeap.length
    let s := { s with
      timerHeapDirectory := update s.timerHeapDirectory leafIndex true
      timerHeap := s.timerHeap ++ [slot] }
    let s := s.setObject slot fun o => { o with
      timerPosition := some position
      deadline := deadline }
    (.ok, timerSiftUp s.timerHeap.length s position)

/-- Whether the leaves there are come before the ones there are not. -/
def leavesInOrder (directory : ℕ → Bool) (leaves : ℕ) : Prop :=
  ∀ leaf ∈ List.range leaves, directory leaf = true → ∀ prior ∈ List.range leaf,
    directory prior = true

instance (directory : ℕ → Bool) (leaves : ℕ) : Decidable (leavesInOrder directory leaves) :=
  inferInstanceAs (Decidable (∀ _ ∈ _, _))

def discardSyncMetadata (s : SyncState) : Bool × SyncState :=
  if ¬ leavesInOrder s.objectDirectory syncLeafCount
      ∨ ¬ leavesInOrder s.timerHeapDirectory timerHeapLeafCount then
    (false, s)
  else
    (true, { s with
      objectDirectory := fun _ => false
      timerHeapDirectory := fun _ => false
      objectBackedLimit := 0
      nextObjectSlot := 0 })

end Astra
