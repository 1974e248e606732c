import AstraKernel.Log.Ring

/-!
# Writers and the consumer

Any number of threads write to the ring and one consumer reads it. A step is one access to what they
share: an atomic one, a run of `copy_out` or `copy_in`, or the doorbell.
-/

namespace Astra

/-- Where a thread is in `astra_log_producer_write` or `astra_log_producer_drop_if_full`: what it
does next, and what it has read for that. -/
inductive LogWriter
  | returned (status : ℕ)
  -- astra_log_producer_write
  | started (w : LogWrite)
  | room (w : LogWrite)
  | reserving (w : LogWrite) (consumer : ℕ)
  | claiming (w : LogWrite) (first : ℕ)
  | counting (w : LogWrite) (first : ℕ)
  | copying (w : LogWrite) (first dropped copied : ℕ)
  | committing (w : LogWrite) (first left : ℕ)
  -- publish
  | publishing (first : ℕ)
  | bounding (first start : ℕ)
  | scanning (first start reserved stop : ℕ)
  | advancing (first start stop : ℕ)
  -- maybe_notify
  | notifying (first : ℕ)
  | ringing (first : ℕ)
  -- ring_doorbell, once the service is gone
  | burying (dropping : Bool)
  -- drop
  | dropping
  | counted (seen : ℕ)
  | dropRinging
  | checking
  -- astra_log_producer_drop_if_full
  | probing (length : ℕ)
  | probeRoom (slots : ℕ)
  | probeCheck (slots reserved : ℕ)

/-- The consumer: between calls, going to sleep with nothing found since it stored its position,
asleep, or in `astra_log_consumer_next`. -/
inductive LogReader
  | running
  | settled
  | asleep
  | fields (capacity produced : ℕ)
  | text (capacity : ℕ) (fields : AstraLogRecordFields) (index : ℕ) (copied : List UInt8)

/-- A record as the consumer got it, with the capacity of its buffer. -/
structure LogDelivery where
  fields : AstraLogRecordFields
  text : List UInt8
  capacity : ℕ

structure LogConsumer where
  position : ℕ
  reader : LogReader
  status : ℕ
  published : Bool
  delivered : List LogDelivery

/-- The drop counter, `dead`, and a doorbell that the consumer has not heard yet. The writes that
were refused for want of room are counted for the statements. -/
structure LogState where
  ring : LogRing
  dropped : ℕ
  dead : Bool
  bell : Bool
  refused : ℕ
  writers : List LogWriter
  consumer : LogConsumer

/-- A ring that was just made, and threads that have not written yet. -/
def LogState.start (threads : ℕ) : LogState where
  ring := ⟨0, 0, 0, fun _ => 0, fun _ _ => 0, []⟩
  dropped := 0
  dead := false
  bell := false
  refused := 0
  writers := List.replicate threads (.returned astraLogWriteOk)
  consumer := ⟨0, .running, astraLogReadEmpty, false, []⟩

/-- The next step of a thread; `gone` is what `notify` answers where it is called. -/
def writerStep (s : LogState) (gone : Bool) : LogWriter → LogState × LogWriter
  | .returned status => (s, .returned status)
  | .started w => (s, if s.dead then .returned astraLogWriteDead else .room w)
  | .room w => (s, .reserving w s.ring.consumerPosition)
  | .reserving w consumer =>
    if wordSub (s.ring.reserved + w.slots) consumer > astraLogRingCapacity then
      ({ s with refused := s.refused + 1 }, .dropping)
    else (s, .claiming w s.ring.reserved)
  | .claiming w first =>
    if SameWord s.ring.reserved first then
      ({ s with ring := { s.ring with
          reserved := first + w.slots
          accepted := s.ring.accepted ++ [w] } }, .counting w first)
    else (s, .room w)
  | .counting w first => (s, .copying w first s.dropped 0)
  | .copying w first dropped copied =>
    ({ s with ring := s.ring.copyOut (w.copyOut first dropped copied) },
      if copied = w.slots then .committing w first w.slots
      else .copying w first dropped (copied + 1))
  -- Continuation slots first, so the first slot's commit means all of it.
  | .committing w first left =>
    ({ s with ring := s.ring.commit (first + (left - 1)) },
      if left - 1 = 0 then .publishing first else .committing w first (left - 1))
  | .publishing first => (s, .bounding first s.ring.producerPosition)
  | .bounding first start => (s, .scanning first start s.ring.reserved start)
  | .scanning first start reserved stop =>
    (s, if ¬SameWord stop reserved ∧ s.ring.committed stop then
        .scanning first start reserved (stop + 1)
      else if SameWord stop start then .notifying first
      else .advancing first start stop)
  | .advancing first start stop =>
    (if SameWord s.ring.producerPosition start then
        { s with ring := { s.ring with producerPosition := stop } }
      else s, .publishing first)
  | .notifying first =>
    (s, if SameWord s.ring.consumerPosition first then .ringing first
      else .returned astraLogWriteOk)
  | .ringing _ =>
    ({ s with bell := true }, if gone then .burying false else .returned astraLogWriteOk)
  | .burying dropping =>
    ({ s with dead := true }, if dropping then .checking else .returned astraLogWriteOk)
  | .dropping => (s, .counted s.dropped)
  | .counted seen =>
    if s.dropped = seen then
      ({ s with dropped := (seen + 1) % 2 ^ 32 },
        if seen % astraLogDropDoorbellInterval = 0 then .dropRinging
        else .returned astraLogWriteDropped)
    else (s, .dropping)
  | .dropRinging => ({ s with bell := true }, if gone then .burying true else .checking)
  | .checking => (s, .returned (if s.dead then astraLogWriteDead else astraLogWriteDropped))
  | .probing length =>
    (s, if s.dead then .returned astraLogWriteDead else .probeRoom (astraLogRecordSlots length))
  | .probeRoom slots => (s, .probeCheck slots s.ring.reserved)
  | .probeCheck slots reserved =>
    if wordSub (reserved + slots) s.ring.consumerPosition ≤ astraLogRingCapacity then
      (s, .returned astraLogWriteOk)
    else ({ s with refused := s.refused + 1 }, .dropping)

/-- The start of `astra_log_consumer_next`. Where it finds nothing since the position was stored, the
consumer may sleep. -/
def consumerNext (r : LogRing) (c : LogConsumer) (capacity : ℕ) : LogConsumer :=
  if wordSub r.producerPosition c.position > astraLogRingCapacity then
    { c with status := astraLogReadCorrupt, reader := .running }
  else if SameWord r.producerPosition c.position then
    { c with status := astraLogReadEmpty, reader := if c.published then .settled else .running }
  else { c with reader := .fields capacity r.producerPosition }

/-- What the consumer checks of a record's header; there may be `available` slots of it. -/
def recordValid (f : AstraLogRecordFields) (available : ℕ) : Bool :=
  ¬(f.slots.toNat = 0 ∨ f.slots.toNat > astraLogRecordSlotsMax ∨ f.slots.toNat > available ∨
    f.textLength.toNat > astraLogTextMax ∨
    astraLogRecordSlots f.textLength.toNat ≠ f.slots.toNat ∨
    f.stream.toNat > astraLogStreamMax ∨ f.level.toNat > astraEventLevelError)

/-- How much of the text is copied from the slot `index`, where `copied` bytes were before. -/
def copyChunk (textLength capacity index copied : ℕ) : ℕ :=
  let chunk := if textLength - copied < textRoom index then textLength - copied else textRoom index
  if copied + chunk > capacity then (if capacity > copied then capacity - copied else 0) else chunk

def consumerStep (r : LogRing) (c : LogConsumer) : LogConsumer :=
  match c.reader with
  | .fields capacity produced =>
    let f := recordFields (getBytes (r.payload c.position) 0 astraLogRecordHeaderSize)
    if recordValid f (wordSub produced c.position) then { c with reader := .text capacity f 0 [] }
    else { c with status := astraLogReadCorrupt, reader := .running }
  | .text capacity f index copied =>
    let copied := copied ++ getBytes (r.payload (c.position + index)) (textOffset index)
      (copyChunk f.textLength.toNat capacity index copied.length)
    if index + 1 < f.slots.toNat then { c with reader := .text capacity f (index + 1) copied }
    else
      { position := c.position + f.slots.toNat
        reader := .running
        status := astraLogReadOk
        published := false
        delivered := c.delivered ++ [⟨f, copied, capacity⟩] }
  | _ => c

inductive LogStep
  | write (thread : ℕ) (w : LogWrite)
  | probe (thread length : ℕ)
  | thread (thread : ℕ) (gone : Bool)
  | next (capacity : ℕ)
  | read
  | publish
  | sleep
  | hear

/-- A step that cannot be taken changes nothing. -/
def logStep (s : LogState) : LogStep → LogState
  | .write thread w => match s.writers[thread]? with
    | some (.returned _) => { s with writers := s.writers.set thread (.started w) }
    | _ => s
  | .probe thread length => match s.writers[thread]? with
    | some (.returned _) => { s with writers := s.writers.set thread (.probing length) }
    | _ => s
  | .thread thread gone => match s.writers[thread]? with
    | some pc =>
      let next := writerStep s gone pc
      { next.1 with writers := s.writers.set thread next.2 }
    | none => s
  | .next capacity => match s.consumer.reader with
    | .running | .settled => { s with consumer := consumerNext s.ring s.consumer capacity }
    | _ => s
  | .read => { s with consumer := consumerStep s.ring s.consumer }
  | .publish => match s.consumer.reader with
    | .running | .settled =>
      { s with
        ring := { s.ring with consumerPosition := s.consumer.position }
        consumer := { s.consumer with published := true, reader := .running } }
    | _ => s
  | .sleep => match s.consumer.reader with
    | .settled => { s with consumer := { s.consumer with reader := .asleep } }
    | _ => s
  | .hear => match s.consumer.reader with
    | .running | .settled | .asleep =>
      if s.bell then
        { s with bell := false, consumer := { s.consumer with reader := .running } }
      else s
    | _ => s

def logRun (s : LogState) (steps : List LogStep) : LogState := steps.foldl logStep s

end Astra
