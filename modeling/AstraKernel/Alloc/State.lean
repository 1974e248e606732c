import AstraKernel.Bytes
import AstraKernel.Bitmap

/-!
# The user-space pool allocator

`alloc.c` over a memory of bytes: the bitmaps and the links of the free lists are words of the
arena. Addresses are numbers, `0` the null pointer. The metric names are only laid out, since
nothing but the sampler reads them.
-/

namespace Astra

/-- The sizes and alignments of the C implementation the allocator is built for. -/
structure AllocTarget where
  sizeBits : ℕ
  alignment : ℕ
  poolBytes : ℕ
  poolAlignment : ℕ
  metricsBytes : ℕ
  metricsAlignment : ℕ
  namesBytes : ℕ
  namesAlignment : ℕ
  wordAlignment : ℕ
  alignment_pow : ∃ k, alignment = 2 ^ k
  poolAlignment_pos : 0 < poolAlignment
  metricsAlignment_pos : 0 < metricsAlignment
  namesAlignment_pos : 0 < namesAlignment
  wordAlignment_pos : 0 < wordAlignment

def AllocTarget.sizeMax (T : AllocTarget) : ℕ := 2 ^ T.sizeBits - 1

abbrev astraAllocEnd : BitVec 32 := 0xffffffff

inductive AstraAllocStatus
  | ok | invalidArgument | arenaTooSmall | classInvalid | exhausted | tooLarge | injected
  | foreignPointer | misalignedPointer | doubleFree
  deriving DecidableEq

structure AstraAllocClass where
  size : BitVec 32
  count : BitVec 32
  deriving DecidableEq

structure AstraAllocClassMetrics where
  allocations : BitVec 32
  frees : BitVec 32
  failures : BitVec 32
  live : BitVec 32
  peakLive : BitVec 32
  deriving DecidableEq

structure AstraAllocPool where
  base : ℕ
  bitmap : ℕ
  stride : ℕ
  count : ℕ
  usable : ℕ
  freeHead : BitVec 32
  freeCount : BitVec 32
  injectionNth : BitVec 32
  deriving DecidableEq

/-- `chargedBytes` and `peakChargedBytes` have `size_t` bits. -/
structure AstraAllocMetrics (sizeBits : ℕ) where
  allocations : BitVec 32
  frees : BitVec 32
  failures : BitVec 32
  rejections : BitVec 32
  injected : BitVec 32
  liveBlocks : BitVec 32
  peakLiveBlocks : BitVec 32
  chargedBytes : BitVec sizeBits
  peakChargedBytes : BitVec sizeBits

/-- The allocator, the tables in its arena, and the memory the arena is in. -/
structure AstraAllocator (T : AllocTarget) where
  poolAt : ℕ
  metricsAt : ℕ
  namesAt : ℕ
  poolCount : ℕ
  pool : ℕ → AstraAllocPool
  perClass : ℕ → AstraAllocClassMetrics
  injectionNth : BitVec 32
  metrics : AstraAllocMetrics T.sizeBits
  lastStatus : AstraAllocStatus
  memory : Memory

variable {T : AllocTarget}

/-! ## Layout -/

/-- The alignment is a power of two: masking its low bits off rounds down to a multiple. -/
def alignUp (T : AllocTarget) (value alignment : ℕ) : Option ℕ :=
  if value > T.sizeMax - (alignment - 1) then none
  else some ((value + (alignment - 1)) / alignment * alignment)

def classStride (T : AllocTarget) (size : ℕ) : ℕ :=
  match alignUp T size T.alignment with
  | none => 0
  | some stride =>
    if stride > 2 ^ 32 - 1 then 0
    -- a free slot carries the next free index in its first bytes
    else if stride < 4 then 4 else stride

def bitmapWords (count : ℕ) : ℕ := count / 32 + if count % 32 ≠ 0 then 1 else 0

/-- The offset of a table and the cursor behind it. -/
def reserve (T : AllocTarget) (cursor count bytes alignment : ℕ) : Option (ℕ × ℕ) :=
  match alignUp T cursor alignment with
  | none => none
  | some start =>
    if count ≠ 0 ∧ bytes > T.sizeMax / count then none
    else if start > T.sizeMax - count * bytes then none
    else some (start, start + count * bytes)

/-- The pools of a class table from a cursor on. -/
def layoutClasses (T : AllocTarget) (arena : ℕ) :
    Option AstraAllocClass → ℕ → List AstraAllocClass → Option (List AstraAllocPool × ℕ)
  | _, cursor, [] => some ([], cursor)
  | previous, cursor, c :: classes =>
    let stride := classStride T c.size.toNat
    if c.size = 0 ∨ c.count = 0 ∨ stride = 0 ∨ previous.any (fun p => c.size ≤ p.size) then none
    else
      match reserve T cursor (bitmapWords c.count.toNat) 4 T.wordAlignment with
      | none => none
      | some (bitmapOffset, cursor) =>
        match reserve T cursor c.count.toNat stride T.alignment with
        | none => none
        | some (blocksOffset, cursor) =>
          match layoutClasses T arena (some c) cursor classes with
          | none => none
          | some (pools, cursor) =>
            some (⟨arena + blocksOffset, arena + bitmapOffset, stride, c.count.toNat,
              c.size.toNat, 0, 0, 0⟩ :: pools, cursor)

structure AllocLayout where
  poolOffset : ℕ
  metricsOffset : ℕ
  namesOffset : ℕ
  pools : List AstraAllocPool
  cursor : ℕ

def layout (T : AllocTarget) (classes : List AstraAllocClass) (arena : ℕ) : Option AllocLayout :=
  if classes.length = 0 then none
  else
    match reserve T 0 classes.length T.poolBytes T.poolAlignment with
    | none => none
    | some (poolOffset, cursor) =>
      match reserve T cursor classes.length T.metricsBytes T.metricsAlignment with
      | none => none
      | some (metricsOffset, cursor) =>
        match reserve T cursor classes.length T.namesBytes T.namesAlignment with
        | none => none
        | some (namesOffset, cursor) =>
          (layoutClasses T arena none cursor classes).map fun (pools, cursor) =>
            ⟨poolOffset, metricsOffset, namesOffset, pools, cursor⟩

def astraAllocArenaBytes (T : AllocTarget) (classes : List AstraAllocClass) : ℕ :=
  ((layout T classes 0).map (·.cursor)).getD 0

/-! ## Blocks and bitmaps -/

def AstraAllocPool.block (p : AstraAllocPool) (slot : ℕ) : ℕ := p.base + slot * p.stride

def bitmapSet (m : Memory) (bitmap index : ℕ) : Memory :=
  store32 m (bitmap + 4 * (index / 32))
    (load32 m (bitmap + 4 * (index / 32)) ||| 1#32 <<< (index % 32))

def bitmapClear (m : Memory) (bitmap index : ℕ) : Memory :=
  store32 m (bitmap + 4 * (index / 32))
    (load32 m (bitmap + 4 * (index / 32)) &&& ~~~(1#32 <<< (index % 32)))

def bitmapTest (m : Memory) (bitmap index : ℕ) : Bool :=
  load32 m (bitmap + 4 * (index / 32)) &&& 1#32 <<< (index % 32) ≠ 0

/-! ## Initialisation -/

def fillZero (m : Memory) (destination count : ℕ) : Memory := fun x =>
  if destination ≤ x ∧ x < destination + count then 0 else m x

/-- The slots below a bound are put in front of the free list, the highest first. -/
def threadSlots (p : AstraAllocPool) : ℕ → BitVec 32 → Memory → BitVec 32 × Memory
  | 0, head, m => (head, m)
  | slot + 1, head, m => threadSlots p slot (BitVec.ofNat 32 slot) (store32 m (p.block slot) head)

def initPool (p : AstraAllocPool) (m : Memory) : AstraAllocPool × Memory :=
  let (head, m) := threadSlots p p.count astraAllocEnd m
  ({ p with freeHead := head, freeCount := BitVec.ofNat 32 p.count }, m)

def initPools : List AstraAllocPool → Memory → List AstraAllocPool × Memory
  | [], m => ([], m)
  | p :: pools, m =>
    let (p, m) := initPool p m
    let (pools, m) := initPools pools m
    (p :: pools, m)

def noPool : AstraAllocPool := ⟨0, 0, 0, 0, 0, 0, 0, 0⟩

def astraAllocInit (T : AllocTarget) (classes : List AstraAllocClass) (arena arenaBytes : ℕ)
    (m : Memory) : Except AstraAllocStatus (AstraAllocator T) :=
  if arena = 0 then .error .invalidArgument
  else if arena % T.alignment ≠ 0 then .error .invalidArgument
  else
    match layout T classes arena with
    | none => .error .classInvalid
    | some l =>
      if l.cursor > arenaBytes then .error .arenaTooSmall
      else
        let (pools, m) := initPools l.pools (fillZero m arena l.cursor)
        .ok { poolAt := arena + l.poolOffset
              metricsAt := arena + l.metricsOffset
              namesAt := arena + l.namesOffset
              poolCount := classes.length
              pool := fun i => pools.getD i noPool
              perClass := fun _ => ⟨0, 0, 0, 0, 0⟩
              injectionNth := 0
              metrics := ⟨0, 0, 0, 0, 0, 0, 0, 0, 0⟩
              lastStatus := .ok
              memory := m }

/-! ## Allocation -/

namespace AstraAllocator

def setPool (a : AstraAllocator T) (i : ℕ) (p : AstraAllocPool) : AstraAllocator T :=
  { a with pool := Function.update a.pool i p }

def setClass (a : AstraAllocator T) (i : ℕ) (c : AstraAllocClassMetrics) : AstraAllocator T :=
  { a with perClass := Function.update a.perClass i c }

end AstraAllocator

def poolForSize (a : AstraAllocator T) (bytes : ℕ) : Option ℕ :=
  (List.range a.poolCount).find? fun i => (a.pool i).usable ≥ bytes

/-- Whether the injection fires, and the count that is left. -/
def injectionFires (nth : BitVec 32) : Bool × BitVec 32 :=
  if nth = 0 then (false, nth) else (nth - 1 = 0, nth - 1)

def recordFailure (a : AstraAllocator T) (perClass : Option ℕ) (status : AstraAllocStatus) :
    AstraAllocator T :=
  let a := { a with metrics := { a.metrics with
    failures := a.metrics.failures + 1
    injected := if status = AstraAllocStatus.injected then a.metrics.injected + 1
      else a.metrics.injected } }
  let a := match perClass with
    | none => a
    | some i => a.setClass i { a.perClass i with failures := (a.perClass i).failures + 1 }
  { a with lastStatus := status }

/-- The first free block of a pool is taken, and the counters follow. -/
def takeBlock (a : AstraAllocator T) (i : ℕ) : ℕ × AstraAllocator T :=
  let p := a.pool i
  let slot := p.freeHead.toNat
  let block := p.block slot
  let a := a.setPool i { p with
    freeHead := load32 a.memory block
    freeCount := p.freeCount - 1 }
  let a := { a with memory := bitmapSet a.memory p.bitmap slot }
  let liveBlocks := a.metrics.liveBlocks + 1
  let chargedBytes := a.metrics.chargedBytes + BitVec.ofNat _ p.stride
  let a := { a with metrics := { a.metrics with
    allocations := a.metrics.allocations + 1
    liveBlocks
    chargedBytes
    peakLiveBlocks := if liveBlocks > a.metrics.peakLiveBlocks then liveBlocks
      else a.metrics.peakLiveBlocks
    peakChargedBytes := if chargedBytes > a.metrics.peakChargedBytes then chargedBytes
      else a.metrics.peakChargedBytes } }
  let c := a.perClass i
  let a := a.setClass i { c with
    allocations := c.allocations + 1
    live := c.live + 1
    peakLive := if c.live + 1 > c.peakLive then c.live + 1 else c.peakLive }
  (block, { a with lastStatus := .ok })

def astraAlloc (a : AstraAllocator T) (bytes : ℕ) : Option ℕ × AstraAllocator T :=
  if a.poolCount = 0 then (none, { a with lastStatus := .invalidArgument })
  else
    -- a zero-byte request still returns a distinct freeable block
    let bytes := if bytes = 0 then 1 else bytes
    match poolForSize a bytes with
    | none => (none, recordFailure a none .tooLarge)
    | some i =>
      let (fires, nth) := injectionFires a.injectionNth
      let a := { a with injectionNth := nth }
      if fires then (none, recordFailure a (some i) .injected)
      else
        let (fires, nth) := injectionFires (a.pool i).injectionNth
        let a := a.setPool i { a.pool i with injectionNth := nth }
        if fires then (none, recordFailure a (some i) .injected)
        else if (a.pool i).freeHead = astraAllocEnd then
          (none, recordFailure a (some i) .exhausted)
        else (some (takeBlock a i).1, (takeBlock a i).2)

def reject (a : AstraAllocator T) (status : AstraAllocStatus) :
    AstraAllocStatus × AstraAllocator T :=
  (status, { a with
    metrics := { a.metrics with rejections := a.metrics.rejections + 1 }
    lastStatus := status })

/-- A live block goes back to the front of its pool's free list. -/
def returnBlock (a : AstraAllocator T) (i slot : ℕ) : AstraAllocator T :=
  let p := a.pool i
  let a := { a with
    memory := store32 (bitmapClear a.memory p.bitmap slot) (p.block slot) p.freeHead }
  let a := a.setPool i { p with
    freeHead := BitVec.ofNat 32 slot
    freeCount := p.freeCount + 1 }
  let a := { a with metrics := { a.metrics with
    frees := a.metrics.frees + 1
    liveBlocks := a.metrics.liveBlocks - 1
    chargedBytes := a.metrics.chargedBytes - BitVec.ofNat _ p.stride } }
  let c := a.perClass i
  let a := a.setClass i { c with
    frees := c.frees + 1
    live := c.live - 1 }
  { a with lastStatus := .ok }

def poolOf (a : AstraAllocator T) (pointer : ℕ) : Option ℕ :=
  (List.range a.poolCount).find? fun i =>
    ¬(pointer < (a.pool i).base ∨
      pointer ≥ (a.pool i).base + (a.pool i).stride * (a.pool i).count)

def astraAllocFree (a : AstraAllocator T) (pointer : ℕ) : AstraAllocStatus × AstraAllocator T :=
  if pointer = 0 then (.ok, { a with lastStatus := .ok })
  else
    match poolOf a pointer with
    | none => reject a .foreignPointer
    | some i =>
      let p := a.pool i
      let offset := pointer - p.base
      if offset % p.stride ≠ 0 then reject a .misalignedPointer
      else
        let slot := offset / p.stride
        if bitmapTest a.memory p.bitmap slot = false then reject a .doubleFree
        else (.ok, returnBlock a i slot)

def astraAllocInject (a : AstraAllocator T) (nth : BitVec 32) : AstraAllocator T :=
  { a with injectionNth := nth }

def astraAllocInjectClass (a : AstraAllocator T) (i : ℕ) (nth : BitVec 32) :
    AstraAllocStatus × AstraAllocator T :=
  if i ≥ a.poolCount then (.invalidArgument, a)
  else (.ok, a.setPool i { a.pool i with injectionNth := nth })

/-! ## Validity -/

/-- The free list walked from a cursor: how many slots are on it, if none of them is out of range
or occupied and it ends after no more than the pool has. -/
def walkFree (m : Memory) (p : AstraAllocPool) : ℕ → BitVec 32 → ℕ → Option ℕ
  | steps, cursor, walked =>
    if cursor = astraAllocEnd then some walked
    else if cursor.toNat ≥ p.count then none
    else if bitmapTest m p.bitmap cursor.toNat then none
    else
      match steps with
      | 0 => none
      | steps + 1 => walkFree m p steps (load32 m (p.block cursor.toNat)) (walked + 1)

def occupiedSlots (m : Memory) (p : AstraAllocPool) : ℕ :=
  (List.range p.count).countP fun slot => bitmapTest m p.bitmap slot

def poolValid (a : AstraAllocator T) (i : ℕ) : Bool :=
  let p := a.pool i
  let occupied := BitVec.ofNat 32 (occupiedSlots a.memory p)
  occupied = (a.perClass i).live ∧ occupied + p.freeCount = BitVec.ofNat 32 p.count ∧
    (walkFree a.memory p p.count p.freeHead 0).map (BitVec.ofNat 32) = some p.freeCount

def liveTotal (a : AstraAllocator T) : ℕ → BitVec 32
  | 0 => 0
  | i + 1 => liveTotal a i + (a.perClass i).live

def astraAllocValid (a : AstraAllocator T) : Bool :=
  a.poolCount ≠ 0 ∧ (∀ i < a.poolCount, poolValid a i = true) ∧
    liveTotal a a.poolCount = a.metrics.liveBlocks

/-! ## Runs -/

inductive AllocCall
  | alloc (bytes : ℕ)
  | free (pointer : ℕ)
  | inject (nth : BitVec 32)
  | injectClass (i : ℕ) (nth : BitVec 32)
  | store (address : ℕ) (value : BitVec 8)

/-- The allocator, and the blocks its client has: where they are and how much was asked for. -/
structure AllocRun (T : AllocTarget) where
  allocator : AstraAllocator T
  live : List (ℕ × ℕ)

/-- A client writes in the blocks it has, nowhere else. -/
def AllocRun.step (r : AllocRun T) : AllocCall → AllocRun T
  | .alloc bytes =>
    match astraAlloc r.allocator bytes with
    | (none, a) => { r with allocator := a }
    | (some pointer, a) => ⟨a, (pointer, bytes) :: r.live⟩
  | .free pointer =>
    let (status, a) := astraAllocFree r.allocator pointer
    ⟨a, if status = .ok then r.live.filter (fun b => b.1 ≠ pointer) else r.live⟩
  | .inject nth => { r with allocator := astraAllocInject r.allocator nth }
  | .injectClass i nth => { r with allocator := (astraAllocInjectClass r.allocator i nth).2 }
  | .store address value =>
    if r.live.any (fun b => b.1 ≤ address ∧ address < b.1 + b.2) then
      { r with allocator := { r.allocator with
        memory := Function.update r.allocator.memory address value } }
    else r

def AllocRun.run (r : AllocRun T) : List AllocCall → AllocRun T
  | [] => r
  | c :: calls => (r.step c).run calls

end Astra
