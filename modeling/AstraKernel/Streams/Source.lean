import Mathlib.Algebra.Group.Nat.Defs
import Mathlib.Data.List.Basic

/-!
# The source of a terminal stream

`stream_sink.c`: a source keeps what was typed and not read yet in a circular buffer, the committed
bytes first and the unfinished line behind them.
-/

namespace Astra

abbrev astraStreamWriteMax : ℕ := 1016

abbrev astraTtyIflagIcrnl : UInt32 := 0x0002
abbrev astraTtyIflagIgncr : UInt32 := 0x0008
abbrev astraTtyIflagInlcr : UInt32 := 0x0020
abbrev astraTtyIflagIstrip : UInt32 := 0x0080
abbrev astraTtyLflagEcho : UInt32 := 0x0001
abbrev astraTtyLflagEchoe : UInt32 := 0x0002
abbrev astraTtyLflagEchok : UInt32 := 0x0004
abbrev astraTtyLflagEchonl : UInt32 := 0x0008
abbrev astraTtyLflagIcanon : UInt32 := 0x0010
abbrev astraTtyLflagIexten : UInt32 := 0x0020
abbrev astraTtyLflagIsig : UInt32 := 0x0040
abbrev astraTtyLflagNoflsh : UInt32 := 0x0080

inductive TtyControl
  | veof | veol | verase | vintr | vkill | vmin | vquit | vstart | vstop | vsusp | vtime
  deriving DecidableEq

inductive TtySetAction
  | applyNow | applyDrain | applyDrainFlushInput | flushInput | flushOutput | flushBoth
  deriving DecidableEq

structure AstraTtyState where
  inputFlags : UInt32
  localFlags : UInt32
  controlCharacters : TtyControl → UInt8
  reserved8 : UInt8
  columns : UInt16
  rows : UInt16
  pixelWidth : UInt16
  pixelHeight : UInt16
  generation : UInt32

/-- An action that is no number of the protocol's is `none`. -/
structure AstraTtySet where
  action : Option TtySetAction
  reserved : UInt32
  state : AstraTtyState

/-- `readable` is the readable event; `echoed` and `signals` are what went to the output and to the
signal callback. -/
@[ext]
structure AstraStreamSource where
  buffer : ℕ → UInt8
  capacity : ℕ
  head : ℕ
  length : ℕ
  committed : ℕ
  eofPending : Bool
  readable : Bool
  tty : Option AstraTtyState
  output : Bool
  echoed : List UInt8
  signals : List TtyControl

/-- The reply to a read. -/
structure AstraStreamData where
  bytes : List UInt8
  endOfFile : Bool
  deriving DecidableEq

def copyBytes {α : Type*} (cell : ℕ → α) (start : ℕ) (value : ℕ → α) (count : ℕ) : ℕ → α :=
  fun j => if start ≤ j ∧ j < start + count then value (j - start) else cell j

/-- The settings that `astra_stream_tty_state_init` makes. -/
def astraStreamTtyStateInit : AstraTtyState where
  inputFlags := astraTtyIflagIcrnl
  localFlags := astraTtyLflagEcho ||| astraTtyLflagEchoe ||| astraTtyLflagEchok |||
    astraTtyLflagIcanon ||| astraTtyLflagIexten ||| astraTtyLflagIsig
  controlCharacters
    | .veof => 0x04
    | .verase => 0x7f
    | .vintr => 0x03
    | .vkill => 0x15
    | .vmin => 1
    | .vquit => 0x1c
    | .vstart => 0x11
    | .vstop => 0x13
    | .vsusp => 0x1a
    | _ => 0
  reserved8 := 0
  columns := 0
  rows := 0
  pixelWidth := 0
  pixelHeight := 0
  generation := 1

namespace AstraTtyState

def inputFlag (tty : AstraTtyState) (mask : UInt32) : Bool := tty.inputFlags &&& mask != 0

def localFlag (tty : AstraTtyState) (mask : UInt32) : Bool := tty.localFlags &&& mask != 0

def ttyControl (tty : AstraTtyState) (index : TtyControl) (value : UInt8) : Bool :=
  tty.controlCharacters index != 0 && tty.controlCharacters index == value

def canonical (tty : AstraTtyState) : Bool := tty.localFlag astraTtyLflagIcanon

/-- The byte as the input flags make it; none where it is passed over. -/
def translated (tty : AstraTtyState) (byte : UInt8) : Option UInt8 :=
  if byte = 13 ∧ tty.inputFlag astraTtyIflagIgncr then none
  else
    let value :=
      if byte = 13 then if tty.inputFlag astraTtyIflagIcrnl then 10 else byte
      else if byte = 10 ∧ tty.inputFlag astraTtyIflagInlcr then 13
      else byte
    some (if tty.inputFlag astraTtyIflagIstrip then value &&& 0x7f else value)

/-- The line is finished behind a byte. -/
def commits (tty : AstraTtyState) (value : UInt8) : Bool :=
  !tty.canonical || value == 10 || tty.ttyControl .veol value

end AstraTtyState

/-- What a byte does. -/
inductive TtyAction
  | ignored
  | signal (control : TtyControl)
  | erase (value : UInt8)
  | kill
  | endOfFile
  | store (value : UInt8)

def AstraTtyState.action (tty : AstraTtyState) (byte : UInt8) : TtyAction :=
  match tty.translated byte with
  | none => .ignored
  | some value =>
    if tty.localFlag astraTtyLflagIsig && (tty.ttyControl .vintr value ||
        tty.ttyControl .vquit value || tty.ttyControl .vsusp value) then
      .signal (if tty.ttyControl .vintr value then .vintr
        else if tty.ttyControl .vquit value then .vquit else .vsusp)
    else if tty.canonical && tty.ttyControl .verase value then .erase value
    else if tty.canonical && tty.ttyControl .vkill value then .kill
    else if tty.canonical && tty.ttyControl .veof value then .endOfFile
    else .store value

namespace AstraStreamSource

/-- `astra_stream_source_init_storage`. -/
def initStorage (storage : ℕ → UInt8) (capacity : ℕ) : AstraStreamSource where
  buffer := storage
  capacity := capacity
  head := 0
  length := 0
  committed := 0
  eofPending := false
  readable := false
  tty := none
  output := false
  echoed := []
  signals := []

/-- `astra_stream_tty_bind`. -/
def bind (s : AstraStreamSource) (tty : AstraTtyState) : AstraStreamSource :=
  { s with
    tty := some tty
    output := true }

def ready (s : AstraStreamSource) : Bool := s.committed != 0 || s.eofPending

def echo (s : AstraStreamSource) (bytes : List UInt8) : AstraStreamSource :=
  if s.output then { s with echoed := s.echoed ++ bytes } else s

/-- The readable event is set where the source was not ready and is. -/
def signalFrom (was_ready : Bool) (s : AstraStreamSource) : AstraStreamSource :=
  if ¬was_ready ∧ s.ready then { s with readable := true } else s

/-- What a flush of the input leaves. -/
def flush (s : AstraStreamSource) : AstraStreamSource :=
  { s with
    head := 0
    length := 0
    committed := 0
    eofPending := false
    readable := false }

def offer (s : AstraStreamSource) (bytes : List UInt8) : AstraStreamSource × ℕ :=
  if bytes = [] then (s, 0)
  else
    let available := s.capacity - s.length
    let take := min bytes.length available
    let tail := (s.head + s.length) % 2 ^ 32 % s.capacity
    let first := min take (s.capacity - tail)
    let value := fun i => bytes.getD i 0
    let buffer := copyBytes s.buffer tail value first
    let buffer := copyBytes buffer 0 (fun i => value (first + i)) (take - first)
    let stored : AstraStreamSource :=
      { s with
        buffer := buffer
        length := s.length + take
        committed := s.committed + take }
    (if ¬s.ready ∧ take ≠ 0 then { stored with readable := true } else stored, take)

/-- One byte of `astra_stream_tty_input`; none where the loop ends because the buffer is full. -/
def ttyByte (tty : AstraTtyState) (s : AstraStreamSource) (byte : UInt8) :
    Option AstraStreamSource :=
  match tty.action byte with
  | .ignored => some s
  | .signal control =>
    let s := if tty.localFlag astraTtyLflagNoflsh then s else s.flush
    some { s with signals := s.signals ++ [control] }
  | .erase value =>
    if s.committed < s.length then
      let s := { s with length := s.length - 1 }
      some
        (if tty.localFlag astraTtyLflagEcho then
          if tty.localFlag astraTtyLflagEchoe then s.echo [8, 32, 8] else s.echo [value]
        else s)
    else some s
  | .kill =>
    let s := { s with length := s.committed }
    some (if tty.localFlag astraTtyLflagEchok then s.echo [10] else s)
  | .endOfFile =>
    let marked : AstraStreamSource :=
      if s.length ≠ s.committed then { s with committed := s.length }
      else { s with eofPending := true }
    some (if ¬s.ready then { marked with readable := true } else marked)
  | .store value =>
    if s.length = s.capacity then none
    else
      let tail := (s.head + s.length) % 2 ^ 32 % s.capacity
      let stored : AstraStreamSource :=
        { s with
          buffer := copyBytes s.buffer tail (fun _ => value) 1
          length := s.length + 1
          committed := if tty.commits value then s.length + 1 else s.committed }
      let echoed :=
        if tty.localFlag astraTtyLflagEcho ∨
            value = 10 ∧ tty.localFlag astraTtyLflagEchonl then stored.echo [value]
        else stored
      some (signalFrom s.ready echoed)

def ttyLoop (tty : AstraTtyState) (s : AstraStreamSource) : List UInt8 → AstraStreamSource × ℕ
  | [] => (s, 0)
  | byte :: bytes =>
    match ttyByte tty s byte with
    | none => (s, 0)
    | some s =>
      let (s, consumed) := ttyLoop tty s bytes
      (s, consumed + 1)

/-- `astra_stream_tty_input`: the bytes that were consumed are counted. -/
def ttyInput (s : AstraStreamSource) (bytes : List UInt8) : AstraStreamSource × ℕ :=
  match s.tty with
  | none => s.offer bytes
  | some tty => ttyLoop tty s bytes

/-- The set request of `handle_tty`. What the output handles while it drains comes before. -/
def ttySet (s : AstraStreamSource) (request : AstraTtySet) : AstraStreamSource × ℕ :=
  match s.tty, request.action with
  | some tty, some action =>
    if request.reserved = 0 ∧ request.state.reserved8 = 0 then
      let s :=
        match action with
        | .applyDrainFlushInput | .flushInput | .flushBoth => s.flush
        | _ => s
      match action with
      | .applyNow | .applyDrain | .applyDrainFlushInput =>
        let generation := tty.generation + 1
        ({ s with tty := some { request.state with
            columns := tty.columns
            rows := tty.rows
            pixelWidth := tty.pixelWidth
            pixelHeight := tty.pixelHeight
            reserved8 := 0
            generation := if generation ≠ 0 then generation else 1 } }, 0)
      | _ => (s, 0)
    else (s, 2)
  | _, _ => (s, 2)

/-- `astra_stream_source_rebind_storage`; the storage is another one. -/
def rebindStorage (s : AstraStreamSource) (storage : ℕ → UInt8) (capacity : ℕ) :
    AstraStreamSource × Bool :=
  if s.capacity = 0 ∨ s.capacity ≤ s.head ∨ s.capacity < s.length ∨ capacity < s.length then
    (s, false)
  else
    let first := min s.length (s.capacity - s.head)
    let storage := copyBytes storage 0 (fun i => s.buffer (s.head + i)) first
    let storage := copyBytes storage first s.buffer (s.length - first)
    ({ s with buffer := storage, capacity := capacity, head := 0 }, true)

/-- The reply that the pump makes for a read. -/
def readReply (s : AstraStreamSource) (capacity : ℕ) : AstraStreamData :=
  let give := min (min capacity s.committed) astraStreamWriteMax
  let first := min give (s.capacity - s.head)
  { bytes := ((List.range first).map fun i => s.buffer (s.head + i)) ++
      (List.range (give - first)).map s.buffer
    endOfFile := s.committed == 0 && s.eofPending }

/-- The bytes are spent where the reply was sent. -/
def spend (s : AstraStreamSource) (capacity : ℕ) : AstraStreamSource :=
  let give := min (min capacity s.committed) astraStreamWriteMax
  let spent : AstraStreamSource :=
    { s with
      head := (s.head + give) % 2 ^ 32 % s.capacity
      length := s.length - give
      committed := s.committed - give
      eofPending := if (s.readReply capacity).endOfFile then false else s.eofPending }
  if spent.ready then spent else { spent with readable := false }

def read (s : AstraStreamSource) (capacity : ℕ) (sent : Bool) :
    AstraStreamSource × Option AstraStreamData :=
  if sent then (s.spend capacity, some (s.readReply capacity)) else (s, none)

end AstraStreamSource

end Astra

/-!
## What a terminal line is for

What was typed and finished stands in a queue, end-of-file marks among the bytes where they were
typed, and the line that is being edited stands apart. A read takes bytes up to the first mark, or a
mark that comes first. A mark right behind another is the same mark.
-/

namespace Astra

inductive LineItem
  | byte (value : UInt8)
  | endOfFile
  deriving DecidableEq

structure LineStream where
  done : List LineItem
  line : List UInt8
  deriving DecidableEq

namespace LineStream

def empty : LineStream := ⟨[], []⟩

def typed (l : LineStream) (value : UInt8) (finished : Bool) : LineStream :=
  if finished then ⟨l.done ++ (l.line ++ [value]).map .byte, []⟩
  else ⟨l.done, l.line ++ [value]⟩

def rubOut (l : LineStream) : LineStream := ⟨l.done, l.line.dropLast⟩

def kill (l : LineStream) : LineStream := ⟨l.done, []⟩

/-- The end-of-file key finishes a line that has bytes, and marks the end behind one that has none. -/
def finish (l : LineStream) : LineStream :=
  if l.line ≠ [] then ⟨l.done ++ l.line.map .byte, []⟩
  else if l.done.getLast? = some .endOfFile then l
  else ⟨l.done ++ [.endOfFile], []⟩

/-- Bytes that come from elsewhere are finished at once. -/
def offer (l : LineStream) (bytes : List UInt8) : LineStream := ⟨l.done ++ bytes.map .byte, l.line⟩

/-- The bytes in front of the first mark. -/
def leading : List LineItem → List UInt8
  | .byte value :: items => value :: leading items
  | _ => []

def read (l : LineStream) (room : ℕ) : LineStream × AstraStreamData :=
  match l.done with
  | .endOfFile :: items => (⟨items, l.line⟩, ⟨[], true⟩)
  | items =>
    let bytes := (leading items).take room
    (⟨items.drop bytes.length, l.line⟩, ⟨bytes, false⟩)

def press (tty : AstraTtyState) (l : LineStream) (byte : UInt8) : LineStream :=
  match tty.action byte with
  | .ignored => l
  | .signal _ => if tty.localFlag astraTtyLflagNoflsh then l else empty
  | .erase _ => l.rubOut
  | .kill => l.kill
  | .endOfFile => l.finish
  | .store value => l.typed value (tty.commits value)

end LineStream

/-- What happens to a source. -/
inductive TtyMove
  | input (bytes : List UInt8)
  | offer (bytes : List UInt8)
  | set (request : AstraTtySet)
  | rebind (storage : ℕ → UInt8) (capacity : ℕ)
  | read (capacity : ℕ) (sent : Bool)

def TtySetAction.flushesInput : TtySetAction → Bool
  | .applyDrainFlushInput | .flushInput | .flushBoth => true
  | _ => false

/-- A source and its line beside it, with the replies that each gave. -/
structure TtyRun where
  source : AstraStreamSource
  line : LineStream
  replies : List AstraStreamData
  expected : List AstraStreamData

namespace TtyRun

def start (storage : ℕ → UInt8) (capacity : ℕ) (tty : Option AstraTtyState) : TtyRun where
  source := tty.elim (AstraStreamSource.initStorage storage capacity)
    (AstraStreamSource.initStorage storage capacity).bind
  line := .empty
  replies := []
  expected := []

/-- The line is told the bytes that the source consumed. -/
def move (σ : TtyRun) : TtyMove → TtyRun
  | .input bytes =>
    let (source, consumed) := σ.source.ttyInput bytes
    { σ with
      source := source
      line :=
        match σ.source.tty with
        | none => σ.line.offer (bytes.take consumed)
        | some tty => (bytes.take consumed).foldl (LineStream.press tty) σ.line }
  | .offer bytes =>
    let (source, consumed) := σ.source.offer bytes
    { σ with
      source := source
      line := σ.line.offer (bytes.take consumed) }
  | .set request =>
    let (source, status) := σ.source.ttySet request
    { σ with
      source := source
      line :=
        if status = 0 ∧ request.action.any (·.flushesInput) then .empty else σ.line }
  | .rebind storage capacity => { σ with source := (σ.source.rebindStorage storage capacity).1 }
  | .read capacity sent =>
    match σ.source.read capacity sent with
    | (source, none) => { σ with source := source }
    | (source, some reply) =>
      let (line, expected) := σ.line.read (min capacity astraStreamWriteMax)
      { source := source
        line := line
        replies := σ.replies ++ [reply]
        expected := σ.expected ++ [expected] }

end TtyRun

end Astra
