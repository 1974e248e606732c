import Mathlib.Data.BitVec

/-!
# The trace ring

`trace.c` on the machine it runs on, which is big-endian. A slot is a union of three shapes of 32
bytes that begin with the commit sequence; the event field of an argument record is not where the
other two have theirs. Reading a slot as another shape than it was written in is a view of its
bytes, and the views are spelled out.
-/

namespace Astra

abbrev kernelTraceCapacity : ℕ := 2047
abbrev kernelTraceArgumentBytes : ℕ := 24
abbrev kernelTraceEventUser : BitVec 16 := 0xe000
abbrev kernelTraceEventUserArguments : BitVec 16 := 0xe001
abbrev kernelTraceLevelMask : BitVec 16 := 0x0007
abbrev kernelTraceLevelError : BitVec 16 := 4
abbrev kernelTraceFlagMask : BitVec 16 := 0x003f

/-- The events of the kernel's own records. -/
inductive KernelTraceEvent
  | boot | panic | exceptionEntry | exceptionExit | irqEntry | irqExit | irqBind | irqArm
  | irqDeliver | irqAck | irqQuarantine | irqRevoke | deviceReset | contextSwitch | threadWake
  | syscallEntry | syscallExit | handleInstall | handleClose | ipcQueue | vmMap | vmUnmap
  | pmmuFault | physicalFault | allocationFailure | monitorCommand | monitorDrop | processExit
  | systemDegraded | waitFailure | workerFailure
  deriving DecidableEq

def KernelTraceEvent.value : KernelTraceEvent → BitVec 16
  | .boot => 1 | .panic => 2 | .exceptionEntry => 3 | .exceptionExit => 4 | .irqEntry => 5
  | .irqExit => 6 | .irqBind => 7 | .irqArm => 8 | .irqDeliver => 9 | .irqAck => 10
  | .irqQuarantine => 11 | .irqRevoke => 12 | .deviceReset => 13 | .contextSwitch => 14
  | .threadWake => 15 | .syscallEntry => 16 | .syscallExit => 17 | .handleInstall => 18
  | .handleClose => 19 | .ipcQueue => 20 | .vmMap => 21 | .vmUnmap => 22 | .pmmuFault => 23
  | .physicalFault => 24 | .allocationFailure => 25 | .monitorCommand => 26
  | .monitorDrop => 27 | .processExit => 28 | .systemDegraded => 29 | .waitFailure => 30
  | .workerFailure => 31

structure KernelTraceRecord where
  timestampHigh : BitVec 32
  timestampLow : BitVec 32
  event : BitVec 16
  flags : BitVec 16
  argument0 : BitVec 32
  argument1 : BitVec 32
  argument2 : BitVec 32
  argument3 : BitVec 32
  deriving DecidableEq

structure KernelTraceUserRecord where
  timestampHigh : BitVec 32
  timestampLow : BitVec 32
  event : BitVec 16
  flags : BitVec 16
  process : BitVec 32
  message : BitVec 32
  activity : BitVec 32
  thread : BitVec 16
  payloadLength : BitVec 16
  deriving DecidableEq

/-- `payload` has `KERNEL_TRACE_ARGUMENT_BYTES` bytes. -/
structure KernelTraceArgumentRecord where
  event : BitVec 16
  reserved : BitVec 16
  payload : List (BitVec 8)
  deriving DecidableEq

def KernelTraceArgumentRecord.half (a : KernelTraceArgumentRecord) (i : ℕ) : BitVec 16 :=
  a.payload.getD i 0 ++ a.payload.getD (i + 1) 0

def KernelTraceArgumentRecord.word (a : KernelTraceArgumentRecord) (i : ℕ) : BitVec 32 :=
  a.half i ++ a.half (i + 2)

/-- What follows the commit sequence of a slot, in the shape it was last written in. -/
inductive KernelTraceBody
  | record (r : KernelTraceRecord)
  | user (r : KernelTraceUserRecord)
  | arguments (a : KernelTraceArgumentRecord)
  deriving DecidableEq

structure KernelTraceSlot where
  commitSequence : BitVec 32
  body : KernelTraceBody
  deriving DecidableEq

namespace KernelTraceBody

def asUser : KernelTraceBody → KernelTraceUserRecord
  | .record r => ⟨r.timestampHigh, r.timestampLow, r.event, r.flags, r.argument0, r.argument1,
      r.argument2, r.argument3.extractLsb' 16 16, r.argument3.extractLsb' 0 16⟩
  | .user r => r
  | .arguments a => ⟨a.event ++ a.reserved, a.word 0, a.half 4, a.half 6, a.word 8, a.word 12,
      a.word 16, a.half 20, a.half 22⟩

def asRecord (body : KernelTraceBody) : KernelTraceRecord :=
  let r := body.asUser
  ⟨r.timestampHigh, r.timestampLow, r.event, r.flags, r.process, r.message, r.activity,
    r.thread ++ r.payloadLength⟩

def halfBytes (h : BitVec 16) : List (BitVec 8) := [h.extractLsb' 8 8, h.extractLsb' 0 8]

def wordBytes (w : BitVec 32) : List (BitVec 8) :=
  halfBytes (w.extractLsb' 16 16) ++ halfBytes (w.extractLsb' 0 16)

def asArguments (body : KernelTraceBody) : KernelTraceArgumentRecord :=
  match body with
  | .arguments a => a
  | _ =>
    let r := body.asUser
    ⟨r.timestampHigh.extractLsb' 16 16, r.timestampHigh.extractLsb' 0 16,
      wordBytes r.timestampLow ++ halfBytes r.event ++ halfBytes r.flags ++ wordBytes r.process ++
        wordBytes r.message ++ wordBytes r.activity ++ halfBytes r.thread ++
        halfBytes r.payloadLength⟩

end KernelTraceBody

/-- The header fields that change, and the slots. -/
structure TraceState where
  nextSequence : BitVec 32
  writeIndex : ℕ
  wrapCount : ℕ
  records : ℕ → KernelTraceSlot

/-- A fresh header over whatever the retained memory holds. -/
def TraceState.init (records : ℕ → KernelTraceSlot) : TraceState := ⟨1, 0, 0, records⟩

def nextTraceSequence (sequence : BitVec 32) : BitVec 32 :=
  if sequence + 1 = 0 then 1 else sequence + 1

def TraceState.headerValid (s : TraceState) : Bool :=
  s.nextSequence ≠ 0 ∧ s.writeIndex < kernelTraceCapacity

/-- The slot the write index points at is filled and committed, and the index moves on. -/
def TraceState.writeSlot (s : TraceState) (body : KernelTraceBody) : TraceState :=
  let wrapped := s.writeIndex + 1 = kernelTraceCapacity
  { nextSequence := nextTraceSequence s.nextSequence
    writeIndex := if wrapped then 0 else s.writeIndex + 1
    wrapCount := if wrapped ∧ s.wrapCount ≠ 2 ^ 32 - 1 then s.wrapCount + 1 else s.wrapCount
    records := Function.update s.records s.writeIndex ⟨s.nextSequence, body⟩ }

def kernelTraceWriteAt (s : TraceState) (event : KernelTraceEvent) (flags : BitVec 16)
    (timestampHigh timestampLow argument0 argument1 argument2 argument3 : BitVec 32) :
    Bool × TraceState :=
  if s.headerValid = false then (false, s)
  else (true, s.writeSlot (.record ⟨timestampHigh, timestampLow, event.value, flags, argument0,
    argument1, argument2, argument3⟩))

/-- The bytes of the slot behind the header: the payload and zeros. -/
def argumentPayload (payload : List (BitVec 8)) : List (BitVec 8) :=
  (List.range kernelTraceArgumentBytes).map fun i => payload.getD i 0

/-- One user event as its writer gives it; a null payload is an empty one. -/
structure TraceUserEvent where
  timestampHigh : BitVec 32
  timestampLow : BitVec 32
  process : BitVec 32
  message : BitVec 32
  activity : BitVec 32
  thread : BitVec 16
  flags : BitVec 16
  payload : List (BitVec 8)
  deriving DecidableEq

def TraceUserEvent.record (e : TraceUserEvent) : KernelTraceUserRecord :=
  ⟨e.timestampHigh, e.timestampLow, kernelTraceEventUser, e.flags, e.process, e.message,
    e.activity, e.thread, BitVec.ofNat 16 e.payload.length⟩

def TraceUserEvent.arguments (e : TraceUserEvent) : KernelTraceArgumentRecord :=
  ⟨kernelTraceEventUserArguments, 0, argumentPayload e.payload⟩

def TraceUserEvent.refused (e : TraceUserEvent) : Bool :=
  e.message = 0 ∨ e.flags &&& kernelTraceLevelMask > kernelTraceLevelError ∨
    e.flags &&& ~~~kernelTraceFlagMask ≠ 0 ∨ e.payload.length > kernelTraceArgumentBytes

def kernelTraceWriteUser (s : TraceState) (e : TraceUserEvent) : Bool × TraceState :=
  if e.refused then (false, s)
  else if s.headerValid = false then (false, s)
  else
    let s := s.writeSlot (.user e.record)
    (true, if e.payload = [] then s else s.writeSlot (.arguments e.arguments))

/-- The commit sequence and the record of a committed slot. -/
def kernelTraceReadSlot (s : TraceState) (slot : ℕ) : Option (BitVec 32 × KernelTraceRecord) :=
  if s.headerValid = false ∨ slot ≥ kernelTraceCapacity then none
  else if (s.records slot).commitSequence = 0 then none
  else some ((s.records slot).commitSequence, (s.records slot).body.asRecord)

/-- The commit sequence, the record and the argument bytes of the user event at a slot. -/
def kernelTraceReadUser (s : TraceState) (slot capacity : ℕ) :
    Option (BitVec 32 × KernelTraceUserRecord × List (BitVec 8)) :=
  if s.headerValid = false ∨ slot ≥ kernelTraceCapacity then none
  else
    let source := (s.records slot).body.asUser
    let commit := (s.records slot).commitSequence
    if commit = 0 ∨ source.event ≠ kernelTraceEventUser then none
    else if source.payloadLength = 0 then some (commit, source, [])
    else if source.payloadLength.toNat > kernelTraceArgumentBytes ∨
        capacity < source.payloadLength.toNat then none
    else
      let next := s.records (if slot + 1 = kernelTraceCapacity then 0 else slot + 1)
      if next.commitSequence ≠ nextTraceSequence commit ∨
          next.body.asArguments.event ≠ kernelTraceEventUserArguments then none
      else some (commit, source, next.body.asArguments.payload.take source.payloadLength.toNat)

def TraceState.committedCount (s : TraceState) : ℕ :=
  if s.wrapCount = 0 then s.writeIndex else kernelTraceCapacity

def sequenceBefore (next distance : BitVec 32) : BitVec 32 :=
  if next > distance then next - distance else BitVec.allOnes 32 - (distance - next)

def sequenceAfter (sequence other : BitVec 32) : Bool :=
  sequence - other ≠ 0 ∧ sequence - other < 0x80000000

structure AstraEventDrained where
  sequence : BitVec 32
  timestampHigh : BitVec 32
  timestampLow : BitVec 32
  process : BitVec 32
  message : BitVec 32
  activity : BitVec 32
  thread : BitVec 16
  flags : BitVec 16
  payloadLength : BitVec 16
  payload : List (BitVec 8)
  deriving DecidableEq

/-- What a drain answers: the cursor, the lost count and the page. -/
structure TraceDrained where
  cursor : BitVec 32
  lost : BitVec 32
  events : List AstraEventDrained
  deriving DecidableEq

/-- The slots from `offset` behind the newest one on, the older first. -/
def drainSlots (s : TraceState) (afterSequence : BitVec 32) (capacity : ℕ) :
    ℕ → TraceDrained → TraceDrained
  | 0, d => d
  | offset + 1, d =>
    if d.events.length ≥ capacity then d
    else
      let expected := sequenceBefore s.nextSequence (BitVec.ofNat 32 (offset + 1))
      let slot := (s.writeIndex + kernelTraceCapacity - 1 - offset) % kernelTraceCapacity
      if afterSequence ≠ 0 ∧ sequenceAfter expected afterSequence = false then
        drainSlots s afterSequence capacity offset d
      else
        let d := { d with cursor := expected }
        match kernelTraceReadUser s slot kernelTraceArgumentBytes with
        | none =>
          let missed := match kernelTraceReadSlot s slot with
            | some (_, raw) => raw.event == kernelTraceEventUser
            | none => false
          drainSlots s afterSequence capacity offset
            { d with lost := if missed then d.lost + 1 else d.lost }
        | some (commit, record, payload) =>
          if commit ≠ expected then drainSlots s afterSequence capacity offset d
          else drainSlots s afterSequence capacity offset { d with events := d.events ++
            [⟨commit, record.timestampHigh, record.timestampLow, record.process, record.message,
              record.activity, record.thread, record.flags, BitVec.ofNat 16 payload.length,
              argumentPayload payload⟩] }

def kernelTraceDrainUser (s : TraceState) (afterSequence : BitVec 32) (capacity : ℕ) :
    TraceDrained :=
  if capacity = 0 ∨ s.headerValid = false ∨ s.committedCount = 0 then ⟨afterSequence, 0, []⟩
  else
    let oldest := sequenceBefore s.nextSequence (BitVec.ofNat 32 s.committedCount)
    let missed := if afterSequence ≠ 0 ∧ sequenceAfter oldest afterSequence then
      oldest - afterSequence - 1 else 0
    drainSlots s afterSequence capacity s.committedCount ⟨afterSequence, missed, []⟩

/-! ## Runs -/

inductive TraceCall
  | kernel (event : KernelTraceEvent) (flags : BitVec 16)
      (timestampHigh timestampLow argument0 argument1 argument2 argument3 : BitVec 32)
  | user (e : TraceUserEvent)
  | drain (capacity : ℕ)

/-- A drain of the reader: its page, what it was told is lost, the room it had and the number of
slots that had been written by then. -/
structure TraceReading where
  events : List AstraEventDrained
  lost : BitVec 32
  capacity : ℕ
  slots : ℕ
  deriving DecidableEq

/-- The ring, its reader's cursor, and what has happened: for each slot written the user event it
starts, as the reader should see it, and the drains. `behind` is how many slots have been written
since the one the cursor names. -/
structure TraceRun where
  trace : TraceState
  cursor : BitVec 32
  behind : ℕ
  written : List (Option AstraEventDrained)
  readings : List TraceReading

def TraceRun.init (records : ℕ → KernelTraceSlot) : TraceRun :=
  ⟨.init records, 0, 0, [], []⟩

/-- How many slots were written after the one of a sequence, up to the next one. -/
def slotsSince (next sequence : BitVec 32) : ℕ :=
  if sequence < next then next.toNat - sequence.toNat - 1
  else 2 ^ 32 - 1 + next.toNat - sequence.toNat - 1

def TraceUserEvent.drained (e : TraceUserEvent) (sequence : BitVec 32) : AstraEventDrained :=
  ⟨sequence, e.timestampHigh, e.timestampLow, e.process, e.message, e.activity, e.thread, e.flags,
    BitVec.ofNat 16 e.payload.length, argumentPayload e.payload⟩

def TraceRun.wrote (r : TraceRun) (trace : TraceState) (entries : List (Option AstraEventDrained)) :
    TraceRun :=
  { r with trace, behind := r.behind + entries.length, written := r.written ++ entries }

def TraceRun.step (r : TraceRun) : TraceCall → TraceRun
  | .kernel event flags timestampHigh timestampLow argument0 argument1 argument2 argument3 =>
    let (written, trace) := kernelTraceWriteAt r.trace event flags timestampHigh timestampLow
      argument0 argument1 argument2 argument3
    if written then r.wrote trace [none] else r
  | .user e =>
    let (written, trace) := kernelTraceWriteUser r.trace e
    if written then
      r.wrote trace (some (e.drained r.trace.nextSequence) :: if e.payload = [] then [] else [none])
    else r
  | .drain capacity =>
    let d := kernelTraceDrainUser r.trace r.cursor capacity
    { r with
      cursor := d.cursor
      behind := if d.cursor = r.cursor then r.behind else slotsSince r.trace.nextSequence d.cursor
      readings := r.readings ++ [⟨d.events, d.lost, capacity, r.written.length⟩] }

def TraceRun.run (r : TraceRun) : List TraceCall → TraceRun
  | [] => r
  | c :: calls => (r.step c).run calls

/-- A condition on each call, in the state it is made in. -/
def TraceRun.Along (P : TraceRun → TraceCall → Prop) : TraceRun → List TraceCall → Prop
  | _, [] => True
  | r, c :: calls => P r c ∧ (r.step c).Along P calls

end Astra
