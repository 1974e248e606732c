import AstraKernel.BigEndian
import AstraKernel.Circular

/-!
# The log ring

`log_ring.c` on the machine it runs on, which is big-endian: the slots, the records in them, and
what the writers and the consumer share. A position goes on counting here; the code has it modulo
`2 ^ 32`, and so is every comparison of positions.
-/

namespace Astra

abbrev astraLogRingCapacity : ℕ := 1024
abbrev astraLogSlotPayload : ℕ := 248
abbrev astraLogRecordHeaderSize : ℕ := 40
abbrev astraLogFirstText : ℕ := astraLogSlotPayload - astraLogRecordHeaderSize
abbrev astraLogRecordSlotsMax : ℕ := 8
abbrev astraLogTextMax : ℕ :=
  astraLogFirstText + (astraLogRecordSlotsMax - 1) * astraLogSlotPayload
abbrev astraLogDropDoorbellInterval : ℕ := 64
abbrev astraLogStreamMax : ℕ := 3
abbrev astraEventLevelError : ℕ := 4
abbrev astraLogFlagTruncated : UInt8 := 0x1
abbrev astraLogFlagWallValid : UInt8 := 0x2

abbrev astraLogWriteOk : ℕ := 0
abbrev astraLogWriteDropped : ℕ := 1
abbrev astraLogWriteDead : ℕ := 2

abbrev astraLogReadOk : ℕ := 0
abbrev astraLogReadEmpty : ℕ := 1
abbrev astraLogReadCorrupt : ℕ := 2

structure AstraLogRecordFields where
  sequence : UInt32
  monotonicHigh : UInt32
  monotonicLow : UInt32
  wallHigh : UInt32
  wallLow : UInt32
  utcOffset : UInt32
  zone : UInt32
  dropped : UInt32
  textLength : UInt16
  level : UInt8
  stream : UInt8
  slots : UInt8
  flags : UInt8
  reserved : UInt16
  deriving DecidableEq

def fieldWidths : List ℕ := [4, 4, 4, 4, 4, 4, 4, 4, 2, 1, 1, 1, 1, 2]

def AstraLogRecordFields.bytes (f : AstraLogRecordFields) : List UInt8 :=
  storeFields fieldWidths [f.sequence.toNat, f.monotonicHigh.toNat, f.monotonicLow.toNat,
    f.wallHigh.toNat, f.wallLow.toNat, f.utcOffset.toNat, f.zone.toNat, f.dropped.toNat,
    f.textLength.toNat, f.level.toNat, f.stream.toNat, f.slots.toNat, f.flags.toNat,
    f.reserved.toNat]

/-- The fields in the first bytes; there are enough of them where this is used. -/
def recordFields (bytes : List UInt8) : AstraLogRecordFields :=
  let field := fun i => ((loadFields bytes 0 fieldWidths).getD []).getD i 0
  { sequence := UInt32.ofNat (field 0)
    monotonicHigh := UInt32.ofNat (field 1)
    monotonicLow := UInt32.ofNat (field 2)
    wallHigh := UInt32.ofNat (field 3)
    wallLow := UInt32.ofNat (field 4)
    utcOffset := UInt32.ofNat (field 5)
    zone := UInt32.ofNat (field 6)
    dropped := UInt32.ofNat (field 7)
    textLength := UInt16.ofNat (field 8)
    level := UInt8.ofNat (field 9)
    stream := UInt8.ofNat (field 10)
    slots := UInt8.ofNat (field 11)
    flags := UInt8.ofNat (field 12)
    reserved := UInt16.ofNat (field 13) }

def astraLogRecordSlots (textLength : ℕ) : ℕ :=
  let textLength := min textLength astraLogTextMax
  if textLength ≤ astraLogFirstText then 1
  else 1 + (textLength - astraLogFirstText + astraLogSlotPayload - 1) / astraLogSlotPayload

/-- What a line is written with. Its level and stream are in range: `astra_log_line` refuses the
others. -/
structure LogWrite where
  fields : AstraLogRecordFields
  text : List UInt8
  level_le : fields.level.toNat ≤ astraEventLevelError
  stream_le : fields.stream.toNat ≤ astraLogStreamMax

namespace LogWrite

/-- The text that is kept. -/
def kept (w : LogWrite) : List UInt8 := w.text.take astraLogTextMax

def slots (w : LogWrite) : ℕ := astraLogRecordSlots w.text.length

def header (w : LogWrite) (first dropped : ℕ) : AstraLogRecordFields :=
  { w.fields with
    sequence := UInt32.ofNat first
    dropped := UInt32.ofNat dropped
    textLength := UInt16.ofNat w.kept.length
    slots := UInt8.ofNat w.slots
    flags := (w.fields.flags &&& astraLogFlagWallValid) |||
      (if w.text.length > astraLogTextMax then astraLogFlagTruncated else 0)
    reserved := 0 }

end LogWrite

/-! ## Slots -/

/-- How much text comes before that of the slot `index`, where it stands in the slot, and how much
of it there is room for. -/
def textStart (index : ℕ) : ℕ :=
  if index = 0 then 0 else astraLogFirstText + (index - 1) * astraLogSlotPayload

def textOffset (index : ℕ) : ℕ := if index = 0 then astraLogRecordHeaderSize else 0

def textRoom (index : ℕ) : ℕ := if index = 0 then astraLogFirstText else astraLogSlotPayload

/-- What is copied out for a record, and where to: the header, and then the text slot by slot. -/
structure CopyOut where
  slot : ℕ
  offset : ℕ
  bytes : List UInt8

def LogWrite.copyOut (w : LogWrite) (first dropped : ℕ) : ℕ → CopyOut
  | 0 => ⟨first, 0, (w.header first dropped).bytes⟩
  | index + 1 => ⟨first + index, textOffset index,
      (w.kept.drop (textStart index)).take (textRoom index)⟩

/-- Bytes put into a slot's payload, and bytes read from one. -/
def putBytes (payload : ℕ → UInt8) (offset : ℕ) (bytes : List UInt8) : ℕ → UInt8 := fun i =>
  if offset ≤ i ∧ i < offset + bytes.length then bytes.getD (i - offset) 0 else payload i

def getBytes (payload : ℕ → UInt8) (offset length : ℕ) : List UInt8 :=
  (List.range length).map fun i => payload (offset + i)

/-- The two positions of the ring's header, the position to be reserved next, and the commit words
and payloads of the slots. The writes whose reservation succeeded are kept for the statements. -/
structure LogRing where
  producerPosition : ℕ
  consumerPosition : ℕ
  reserved : ℕ
  words : ℕ → ℕ
  payloads : ℕ → ℕ → UInt8
  accepted : List LogWrite

namespace LogRing

def copyOut (r : LogRing) (c : CopyOut) : LogRing :=
  let slot := c.slot % astraLogRingCapacity
  { r with
    payloads := Function.update r.payloads slot (putBytes (r.payloads slot) c.offset c.bytes) }

def commit (r : LogRing) (position : ℕ) : LogRing :=
  { r with words := Function.update r.words (position % astraLogRingCapacity) (position + 1) }

/-- The commit word is that of the position. -/
def committed (r : LogRing) (position : ℕ) : Bool :=
  r.words (position % astraLogRingCapacity) % 2 ^ 32 = (position + 1) % 2 ^ 32

def payload (r : LogRing) (position : ℕ) : ℕ → UInt8 :=
  r.payloads (position % astraLogRingCapacity)

end LogRing

/-- The same word. -/
abbrev SameWord (a b : ℕ) : Prop := a % 2 ^ 32 = b % 2 ^ 32

/-- The difference of two words. -/
def wordSub (a b : ℕ) : ℕ := (a % 2 ^ 32 + 2 ^ 32 - b % 2 ^ 32) % 2 ^ 32

end Astra
