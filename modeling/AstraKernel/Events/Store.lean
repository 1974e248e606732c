import AstraKernel.BigEndian
import AstraKernel.Circular
import AstraKernel.Trace.State

/-!
# The event store

Four rings of records (`event_store.c`): what the person was shown, the working history, the level
`info`, and the first events of the boot. The first three drop their oldest record for a new one,
and the drops are counted by subsystem.
-/

/-!
## Events and their texts

The catalog that has the format of each message, and the text that it makes of a drained event
(`event_catalog.c`). A text is cut where its buffer ends.
-/

namespace Astra

abbrev astraEventLevelMask : BitVec 16 := 0x0007
abbrev astraEventFlagPresented : BitVec 16 := 0x0008
abbrev astraEventFlagInlineString : BitVec 16 := 0x0010

abbrev astraEventLevelDebug : ℕ := 0
abbrev astraEventLevelInfo : ℕ := 1

abbrev astraEventSubsystemMax : ℕ := 8

def AstraEventDrained.level (event : AstraEventDrained) : ℕ :=
  (event.flags &&& astraEventLevelMask).toNat

/-- The bytes of the payload that belong to the event. -/
def AstraEventDrained.carried (event : AstraEventDrained) : List UInt8 :=
  (event.payload.take event.payloadLength.toNat).map UInt8.ofBitVec

/-- The file and the format are the whole arrays. -/
structure AstraEventDescriptor where
  magic : UInt32
  line : UInt16
  subsystem : UInt8
  file : List UInt8
  format : List UInt8

abbrev astraEventDescriptorMagic : UInt32 := 0x41455644
abbrev astraEventDescriptorSize : ℕ := 128

structure AstraEventCatalog where
  records : Option (List AstraEventDescriptor)
  base : BitVec 32

def astraEventCatalogLookup (catalog : Option AstraEventCatalog) (message : BitVec 32) :
    Option AstraEventDescriptor := do
  let catalog ← catalog
  let records ← catalog.records
  if message < catalog.base then none
  else
    let offset := message.toNat - catalog.base.toNat
    if offset % astraEventDescriptorSize ≠ 0 then none
    else
      let record ← records[offset / astraEventDescriptorSize]?
      if record.magic = astraEventDescriptorMagic then some record else none

def asciiText (text : String) : List UInt8 := text.toList.map fun c => UInt8.ofNat c.toNat

def numberText (radix value : ℕ) : List UInt8 :=
  (Nat.toDigits radix value).map fun c => UInt8.ofNat c.toNat

/-- What has a place of the text, where it may be so long. -/
def put (limit : ℕ) (out text : List UInt8) : List UInt8 := out ++ text.take (limit - out.length)

abbrev eventPercent : UInt8 := 0x25

/-- The 32 bits as a signed number. -/
def signedText (value : ℕ) : List UInt8 :=
  if 2 ^ 31 ≤ value then asciiText "-" ++ numberText 10 (2 ^ 32 - value) else numberText 10 value

def eventArgument (payload : List UInt8) (index : ℕ) : Option ℕ :=
  if index * 4 + 4 > payload.length then none
  else some (ofBigEndian ((payload.drop (index * 4)).take 4))

/-- What stands for a conversion and its value. -/
def conversionText (conversion : UInt8) (value : ℕ) : List UInt8 :=
  if conversion = 0x75 then numberText 10 value
  else if conversion = 0x64 then signedText value
  else if conversion = 0x78 then numberText 16 value
  else [eventPercent, conversion] ++ asciiText "=" ++ numberText 10 value

/-- The loop over a format, of which `taken` arguments have been used. -/
def formatFrom (limit : ℕ) (payload : List UInt8) : List UInt8 → ℕ → List UInt8 → List UInt8
  | [], _, out => out
  | [b], _, out => if b = 0 ∨ limit ≤ out.length ∨ b = eventPercent then out else out ++ [b]
  | b :: conversion :: rest, taken, out =>
    if b = 0 ∨ limit ≤ out.length then out
    else if b ≠ eventPercent then
      formatFrom limit payload (conversion :: rest) taken (out ++ [b])
    else if conversion = eventPercent then formatFrom limit payload rest taken (out ++ [eventPercent])
    else
      match eventArgument payload taken with
      | none => formatFrom limit payload rest taken (put limit out (asciiText "<missing>"))
      | some value =>
        formatFrom limit payload rest (taken + 1) (put limit out (conversionText conversion value))

/-- The last byte of the buffer is for the end of the string. -/
def astraEventCatalogRender (catalog : Option AstraEventCatalog) (message : BitVec 32)
    (flags : BitVec 16) (payload : List UInt8) (capacity : ℕ) : List UInt8 :=
  let limit := capacity - 1
  if capacity = 0 then []
  else if flags &&& astraEventFlagInlineString ≠ 0 then payload.take limit
  else
    match astraEventCatalogLookup catalog message with
    | none => put limit [] (asciiText "message 0x" ++ numberText 16 message.toNat)
    | some record => formatFrom limit payload record.format 0 []

end Astra

namespace Astra

structure AstraEventStored where
  event : AstraEventDrained
  repeated : UInt32
  lastTimestampHigh : BitVec 32
  lastTimestampLow : BitVec 32
  deriving DecidableEq

structure AstraEventRing where
  records : ℕ → AstraEventStored
  capacity : ℕ
  count : ℕ
  oldest : ℕ
  evicted : UInt32

inductive EventTier
  | presented | record | detail | boot
  deriving DecidableEq

structure AstraEventStore where
  tiers : EventTier → AstraEventRing
  catalog : Option AstraEventCatalog
  evictedBySubsystem : UInt8 → UInt32
  evictedUnattributed : UInt32
  droppedDebug : UInt32
  stored : UInt32

namespace AstraEventRing

/-- `ring_init` -/
def start (records : ℕ → AstraEventStored) (capacity : ℕ) : AstraEventRing :=
  ⟨records, capacity, 0, 0, 0⟩

/-- `ring_push`, and the record that it has displaced. -/
def push (r : AstraEventRing) (event : AstraEventDrained) :
    AstraEventRing × Option AstraEventStored :=
  if r.capacity = 0 then (r, none)
  else
    let place := (r.oldest + r.count) % r.capacity
    let records := Function.update r.records place
      ⟨event, 1, event.timestampHigh, event.timestampLow⟩
    if r.count = r.capacity then
      ({ r with
        records := records
        oldest := (r.oldest + 1) % r.capacity
        evicted := r.evicted + 1 }, some (r.records r.oldest))
    else ({ r with records := records, count := r.count + 1 }, none)

/-- The records that are held, the oldest first. -/
def entries (r : AstraEventRing) : List AstraEventStored :=
  window r.records r.capacity r.oldest r.count

end AstraEventRing

/-- The shares of `count` records, in sixteenths; the rest is the boot ring's. -/
def astraEventStoreInit (records : ℕ → AstraEventStored) (count : ℕ)
    (catalog : Option AstraEventCatalog) : Option AstraEventStore :=
  let presented := count * 2 % 2 ^ 32 / 16
  let record := count * 6 % 2 ^ 32 / 16
  let detail := count * 6 % 2 ^ 32 / 16
  let boot := count - presented - record - detail
  if presented = 0 ∨ record = 0 ∨ detail = 0 ∨ boot = 0 then none
  else some
    { tiers := fun
        | .presented => .start records presented
        | .record => .start (fun i => records (presented + i)) record
        | .detail => .start (fun i => records (presented + record + i)) detail
        | .boot => .start (fun i => records (presented + record + detail + i)) boot
      catalog := catalog
      evictedBySubsystem := fun _ => 0
      evictedUnattributed := 0
      droppedDebug := 0
      stored := 0 }

def tierOf (event : AstraEventDrained) : EventTier :=
  if event.flags &&& astraEventFlagPresented ≠ 0 then .presented
  else if event.level ≤ astraEventLevelInfo then .detail
  else .record

namespace AstraEventStore

variable (s : AstraEventStore)

def setTier (tier : EventTier) (ring : AstraEventRing) : AstraEventStore :=
  { s with tiers := Function.update s.tiers tier ring }

/-- Whose history a displaced record has been. -/
def attributed (displaced : AstraEventStored) : AstraEventStore :=
  match astraEventCatalogLookup s.catalog displaced.event.message with
  | some record =>
    if record.subsystem.toNat < astraEventSubsystemMax then
      let evicted := s.evictedBySubsystem record.subsystem + 1
      { s with evictedBySubsystem := Function.update s.evictedBySubsystem record.subsystem evicted }
    else { s with evictedUnattributed := s.evictedUnattributed + 1 }
  | none => { s with evictedUnattributed := s.evictedUnattributed + 1 }

/-- The event in the ring of its tier, and the account of what that has displaced. -/
def filed (event : AstraEventDrained) : AstraEventStore :=
  let (ring, displaced) := (s.tiers (tierOf event)).push event
  let s := s.setTier (tierOf event) ring
  let s := match displaced with
    | some displaced => s.attributed displaced
    | none => s
  { s with stored := s.stored + 1 }

end AstraEventStore

def astraEventStoreAppend (s : AstraEventStore) (event : AstraEventDrained) : AstraEventStore :=
  if event.level = astraEventLevelDebug then { s with droppedDebug := s.droppedDebug + 1 }
  else
    let s := s.filed event
    -- The boot ring takes a copy while it has room, and then stops.
    let boot := s.tiers .boot
    if boot.count < boot.capacity then s.setTier .boot (boot.push event).1 else s

def astraEventStoreAt (s : AstraEventStore) (tier : EventTier) (index : ℕ) :
    Option AstraEventStored :=
  let ring := s.tiers tier
  if index ≥ ring.count then none
  else some (ring.records ((ring.oldest + index) % ring.capacity))

end Astra
